import TraitLang.Toml.Scalar

/-!
Reading TOML documents, version 1.0 of the language.
-/
namespace TraitLang.Toml

/-- How deep arrays and inline tables may nest, and how many parts a key may have. -/
def nestingLimit : Nat := 79

/-- Blanks, comments and line breaks between the items of an array. -/
private def skipTrivia : Nat → List Char → List Char
  | 0, cs => cs
  | fuel + 1, cs =>
    let cs := skipBlank cs
    match cs with
    | '#' :: _ | '\n' :: _ | '\r' :: _ =>
      match readLineEnd cs with
      | some rest => skipTrivia fuel rest
      | none => cs
    | _ => cs

mutual

/-- A value without blanks in front. Every call reads a character, so fuel for each suffices. -/
def readValue : Nat → Nat → List Char → Option (Toml × List Char)
  | 0, _, _ => none
  | fuel + 1, room, cs =>
    match cs with
    | '"' :: _ | '\'' :: _ => (readString cs).map fun (s, rest) => (.string s, rest)
    | '[' :: rest =>
      if room = 0 then none
      else (readItems fuel (room - 1) rest).map fun (items, rest) => (.array items, rest)
    | '\x7b' :: rest =>
      if room = 0 then none
      else
        match skipBlank rest with
        | '\x7d' :: rest => some (.table [], rest)
        | rest =>
          (readMembers fuel (room - 1) [] rest).map fun (entries, rest) =>
            (.table (closeAll entries), rest)
    | _ => readToken cs

def readItems : Nat → Nat → List Char → Option (List Toml × List Char)
  | 0, _, _ => none
  | fuel + 1, room, cs =>
    match skipTrivia cs.length cs with
    | ']' :: rest => some ([], rest)
    | cs => do
      let (item, rest) ← readValue fuel room cs
      match skipTrivia rest.length rest with
      | ']' :: rest => return ([item], rest)
      | ',' :: rest =>
        let (items, rest) ← readItems fuel room rest
        return (item :: items, rest)
      | _ => none

/-- The members of an inline table up to its brace. -/
def readMembers : Nat → Nat → Entries → List Char → Option (Entries × List Char)
  | 0, _, _, _ => none
  | fuel + 1, room, done, cs => do
    let ((path, key), rest) ← readKey nestingLimit (skipBlank cs)
    match skipBlank rest with
    | '=' :: rest =>
      let (v, rest) ← readValue fuel room (skipBlank rest)
      let entries ← addValue path key v done
      match skipBlank rest with
      | '\x7d' :: rest => return (entries, rest)
      | ',' :: rest => readMembers fuel room entries rest
      | _ => none
    | _ => none

end

/-- A document in progress: its tables and the path of the last header. -/
structure Draft where
  entries : Entries := []
  current : List String := []

private def readHeader (d : Draft) (cs : List Char) : Option (Draft × List Char) :=
  match cs with
  | '[' :: '[' :: rest => do
    let ((path, key), rest) ← readKey nestingLimit (skipBlank rest)
    let ']' :: ']' :: rest := skipBlank rest | none
    let entries ← addArrayTable path key d.entries
    return ({ entries, current := path ++ [key] }, ← readLineEnd rest)
  | '[' :: rest => do
    let ((path, key), rest) ← readKey nestingLimit (skipBlank rest)
    let ']' :: rest := skipBlank rest | none
    let entries ← addTable path key d.entries
    return ({ entries, current := path ++ [key] }, ← readLineEnd rest)
  | _ => none

private def readPair (d : Draft) (cs : List Char) : Option (Draft × List Char) := do
  let ((path, key), rest) ← readKey nestingLimit cs
  let '=' :: rest := skipBlank rest | none
  let (v, rest) ← readValue rest.length nestingLimit (skipBlank rest)
  let entries ← addUnder d.current path key v d.entries
  return ({ d with entries }, ← readLineEnd rest)

/-- Line after line, at most `fuel` of them. -/
private def readLinesOf : Nat → Draft → List Char → Option Entries
  | _, d, [] => some d.entries
  | 0, _, _ => none
  | fuel + 1, d, cs =>
    match skipBlank cs with
    | [] => some d.entries
    | '[' :: rest => do
      let (d, rest) ← readHeader d ('[' :: rest)
      readLinesOf fuel d rest
    | c :: rest =>
      if c = '#' || c = '\n' || c = '\r' then do readLinesOf fuel d (← readLineEnd (c :: rest))
      else do
        let (d, rest) ← readPair d (c :: rest)
        readLinesOf fuel d rest

/-- Reads a whole document as a table. A byte-order mark in front is ignored. -/
def parse? (text : String) : Option (List (String × Toml)) :=
  let cs := match text.toList with
    | '\uFEFF' :: rest => rest
    | cs => cs
  (readLinesOf (cs.length + 1) {} cs).map closeAll

end TraitLang.Toml
