import TraitLang.Json.Basic

/-!
Reading JSON text. The grammar is that of the standard, without extensions: no byte-order mark, no
raw control characters in strings, no leading zeros, nothing but blanks after the document.
-/
namespace TraitLang.Json

def isBlank (c : Char) : Bool := c = ' ' || c = '\t' || c = '\n' || c = '\r'

def skipBlank (cs : List Char) : List Char := cs.dropWhile isBlank

def hexValue? (c : Char) : Option Nat :=
  if '0' ≤ c ∧ c ≤ '9' then some (c.toNat - '0'.toNat)
  else if 'a' ≤ c ∧ c ≤ 'f' then some (c.toNat - 'a'.toNat + 10)
  else if 'A' ≤ c ∧ c ≤ 'F' then some (c.toNat - 'A'.toNat + 10)
  else none

/-- Value of four hexadecimal digits. -/
def hex4? (a b c d : Char) : Option Nat := do
  return (((← hexValue? a) * 16 + (← hexValue? b)) * 16 + (← hexValue? c)) * 16 + (← hexValue? d)

/-- What has been read of a string: its characters in reverse, a high surrogate that waits for its
partner, and whether all escapes so far were characters. -/
structure Draft where
  chars : List Char := []
  high : Option Nat := none
  sound : Bool := true

namespace Draft

def push (p : Draft) (c : Char) : Draft :=
  { chars := c :: p.chars, sound := p.sound && p.high.isNone }

/-- Adds the code unit of an escape. -/
def unit (p : Draft) (u : Nat) : Draft :=
  let isHigh := 0xD800 ≤ u && u < 0xDC00
  let isLow := 0xDC00 ≤ u && u < 0xE000
  match p.high with
  | some h =>
    if isLow then
      { chars := Char.ofNat (0x10000 + (h - 0xD800) * 0x400 + (u - 0xDC00)) :: p.chars
        sound := p.sound }
    else { p with sound := false }
  | none =>
    if isHigh then { p with high := some u }
    else if isLow then { p with sound := false }
    else p.push (Char.ofNat u)

def finish (p : Draft) : Option String :=
  if p.sound && p.high.isNone then some (String.ofList p.chars.reverse) else none

end Draft

/-- The rest of a string after its opening quote, and what follows it. -/
def readText (p : Draft) : List Char → Option (Option String × List Char)
  | [] => none
  | '"' :: rest => some (p.finish, rest)
  | '\\' :: 'u' :: a :: b :: c :: d :: rest =>
    match hex4? a b c d with
    | some u => readText (p.unit u) rest
    | none => none
  | '\\' :: c :: rest =>
    match c with
    | '"' | '\\' | '/' => readText (p.push c) rest
    | 'b' => readText (p.push '\x08') rest
    | 'f' => readText (p.push '\x0c') rest
    | 'n' => readText (p.push '\n') rest
    | 'r' => readText (p.push '\r') rest
    | 't' => readText (p.push '\t') rest
    | _ => none
  | c :: rest => if c.toNat < 0x20 || c = '\\' then none else readText (p.push c) rest

def digitsValue (ds : List Char) : Nat :=
  ds.foldl (fun n c => n * 10 + (c.toNat - '0'.toNat)) 0

/-- Digits in front and what follows them. -/
def spanDigits (cs : List Char) : List Char × List Char :=
  (cs.takeWhile Char.isDigit, cs.dropWhile Char.isDigit)

/-- Digits of a fraction, if there is one. -/
def readFraction : List Char → Option (List Char × List Char)
  | '.' :: cs =>
    match spanDigits cs with
    | ([], _) => none
    | (ds, rest) => some (ds, rest)
  | cs => some ([], cs)

/-- The exponent, if there is one. -/
def readExponent (cs : List Char) : Option (Option Int × List Char) :=
  match cs with
  | c :: rest =>
    if c = 'e' || c = 'E' then
      let (negative, rest) := match rest with
        | '+' :: r => (false, r)
        | '-' :: r => (true, r)
        | r => (false, r)
      match spanDigits rest with
      | ([], _) => none
      | (ds, rest) =>
        let n : Int := digitsValue ds
        some (some (if negative then -n else n), rest)
    else some (none, cs)
  | [] => some (none, cs)

/-- A number without its sign. -/
def readMagnitude (negative : Bool) (cs : List Char) : Option (JsonNumber × List Char) := do
  let (whole, rest) := spanDigits cs
  match whole with
  | [] => none
  | '0' :: _ :: _ => none
  | _ =>
    let (fraction, rest) ← readFraction rest
    let (exponent, rest) ← readExponent rest
    let n := digitsValue (whole ++ fraction)
    if fraction.isEmpty ∧ exponent.isNone ∧ ¬(negative ∧ n = 0) then
      return (.integer (if negative then -n else n), rest)
    else return (.decimal negative ⟨n, exponent.getD 0 - fraction.length⟩, rest)

def readNumber : List Char → Option (JsonNumber × List Char)
  | '-' :: cs => readMagnitude true cs
  | cs => readMagnitude false cs

mutual

/-- A document without blanks in front, and what follows it. Every call reads a character, so fuel
for each character suffices. -/
def readValue : Nat → List Char → Option (Json × List Char)
  | 0, _ => none
  | fuel + 1, cs =>
    match cs with
    | 'n' :: 'u' :: 'l' :: 'l' :: rest => some (.null, rest)
    | 't' :: 'r' :: 'u' :: 'e' :: rest => some (.bool true, rest)
    | 'f' :: 'a' :: 'l' :: 's' :: 'e' :: rest => some (.bool false, rest)
    | '"' :: rest => (readText {} rest).map fun (s, rest) => (.string s, rest)
    | '[' :: rest =>
      match skipBlank rest with
      | ']' :: rest => some (.array [], rest)
      | rest => (readItems fuel rest).map fun (items, rest) => (.array items, rest)
    | '\x7b' :: rest =>
      match skipBlank rest with
      | '\x7d' :: rest => some (.object [], rest)
      | rest => (readMembers fuel rest).map fun (members, rest) => (.object members, rest)
    | cs => (readNumber cs).map fun (n, rest) => (.number n, rest)

/-- The items of an array up to its bracket. -/
def readItems : Nat → List Char → Option (List Json × List Char)
  | 0, _ => none
  | fuel + 1, cs => do
    let (item, rest) ← readValue fuel cs
    match skipBlank rest with
    | ']' :: rest => return ([item], rest)
    | ',' :: rest =>
      let (items, rest) ← readItems fuel (skipBlank rest)
      return (item :: items, rest)
    | _ => none

/-- The members of an object up to its brace. -/
def readMembers : Nat → List Char → Option (List (Option String × Json) × List Char)
  | 0, _ => none
  | fuel + 1, cs =>
    match cs with
    | '"' :: rest => do
      let (key, rest) ← readText {} rest
      match skipBlank rest with
      | ':' :: rest =>
        let (value, rest) ← readValue fuel (skipBlank rest)
        match skipBlank rest with
        | '\x7d' :: rest => return ([(key, value)], rest)
        | ',' :: rest =>
          let (members, rest) ← readMembers fuel (skipBlank rest)
          return ((key, value) :: members, rest)
        | _ => none
      | _ => none
    | _ => none

end

/-- Reads a whole text. -/
def parse? (text : String) : Option Json :=
  let cs := text.toList
  match readValue (cs.length + 1) (skipBlank cs) with
  | some (json, rest) => if (skipBlank rest).isEmpty then some json else none
  | none => none

end TraitLang.Json
