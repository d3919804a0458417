import TraitLang.Decimal.Layout
import TraitLang.Json.Basic

/-!
Writing JSON text, on one line without blanks or indented by two blanks a level.
-/
namespace TraitLang.Json

def hexDigit (n : Nat) : Char := (Nat.toDigits 16 n).headD '0'

/-- One character of a string. -/
def escape (c : Char) : List Char :=
  if c = '"' then ['\\', '"']
  else if c = '\\' then ['\\', '\\']
  else if c = '\x08' then ['\\', 'b']
  else if c = '\x0c' then ['\\', 'f']
  else if c = '\n' then ['\\', 'n']
  else if c = '\r' then ['\\', 'r']
  else if c = '\t' then ['\\', 't']
  else if c.toNat < 0x20 then
    ['\\', 'u', '0', '0', hexDigit (c.toNat / 16), hexDigit (c.toNat % 16)]
  else [c]

def quote (s : String) : String := String.ofList ('"' :: s.toList.flatMap escape ++ ['"'])

def numberText : JsonNumber → String
  | .integer n => toString n
  | .decimal negative magnitude => (if negative then "-" else "") ++ magnitude.interchange

mutual

/-- On one line. -/
def compact : Json → String
  | null => "null"
  | bool b => if b then "true" else "false"
  | number n => numberText n
  | string s => quote (s.getD "")
  | array items => "[" ++ compactItems items ++ "]"
  | object members => "\x7b" ++ compactMembers members ++ "\x7d"

def compactItems : List Json → String
  | [] => ""
  | [j] => compact j
  | j :: k :: rest => compact j ++ "," ++ compactItems (k :: rest)

def compactMembers : List (Option String × Json) → String
  | [] => ""
  | [(key, j)] => quote (key.getD "") ++ ":" ++ compact j
  | (key, j) :: m :: rest =>
    quote (key.getD "") ++ ":" ++ compact j ++ "," ++ compactMembers (m :: rest)

end

/-- A line break and the blanks of a level. -/
def newline (level : Nat) : String := "\n" ++ String.ofList (List.replicate (2 * level) ' ')

mutual

/-- Indented, for a value at the given level. -/
def pretty (level : Nat) : Json → String
  | array [] => "[]"
  | array (j :: rest) => "[" ++ prettyItems (level + 1) (j :: rest) ++ newline level ++ "]"
  | object [] => "\x7b\x7d"
  | object (m :: rest) =>
    "\x7b" ++ prettyMembers (level + 1) (m :: rest) ++ newline level ++ "\x7d"
  | null => "null"
  | bool b => if b then "true" else "false"
  | number n => numberText n
  | string s => quote (s.getD "")

def prettyItems (level : Nat) : List Json → String
  | [] => ""
  | [j] => newline level ++ pretty level j
  | j :: k :: rest => newline level ++ pretty level j ++ "," ++ prettyItems level (k :: rest)

def prettyMembers (level : Nat) : List (Option String × Json) → String
  | [] => ""
  | [(key, j)] => newline level ++ quote (key.getD "") ++ ": " ++ pretty level j
  | (key, j) :: m :: rest =>
    newline level ++ quote (key.getD "") ++ ": " ++ pretty level j ++ "," ++
      prettyMembers level (m :: rest)

end

end TraitLang.Json
