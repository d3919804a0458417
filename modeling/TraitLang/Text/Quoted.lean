import TraitLang.Text.Unseen

/-!
Quoted text, as strings and characters appear inside containers: short escapes for the common
controls, a backslash before the quote in use and before itself, and the code point in hexadecimal
for a character that would not be seen.
-/
namespace TraitLang.Text

/-- How one character is written between two marks `quote`. -/
def escape (quote c : Char) : String :=
  if c = '\x00' then "\\0"
  else if c = '\t' then "\\t"
  else if c = '\n' then "\\n"
  else if c = '\r' then "\\r"
  else if c = '\\' || c = quote then String.ofList ['\\', c]
  else if isUnseen c then "\\u\x7b" ++ String.ofList (Nat.toDigits 16 c.toNat) ++ "\x7d"
  else c.toString

/-- A string in double quotes. -/
def quoted (s : String) : String :=
  "\"" ++ String.join (s.toList.map (escape '"')) ++ "\""

/-- A character in single quotes. -/
def quotedChar (c : Char) : String :=
  "'" ++ escape '\'' c ++ "'"

end TraitLang.Text
