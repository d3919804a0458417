import TraitLang.Toml.Basic

/-!
Strings, numbers, dates and keys of TOML. Readers take the text from their first character on and
give what follows.
-/
namespace TraitLang.Toml

def isBlank (c : Char) : Bool := c = ' ' || c = '\t'

def skipBlank (cs : List Char) : List Char := cs.dropWhile isBlank

/-- Characters that comments and one-line strings may hold. -/
def isPlain (c : Char) : Bool := c = '\t' || (0x20 ≤ c.toNat && c.toNat ≠ 0x7F)

private def digitValue? (radix : Nat) (c : Char) : Option Nat :=
  let n :=
    if '0' ≤ c ∧ c ≤ '9' then c.toNat - '0'.toNat
    else if 'a' ≤ c ∧ c ≤ 'f' then c.toNat - 'a'.toNat + 10
    else if 'A' ≤ c ∧ c ≤ 'F' then c.toNat - 'A'.toNat + 10
    else 16
  if n < radix then some n else none

/-- Digits with single underscores between them. -/
private def digits? (radix : Nat) (value : Nat) : List Char → Option Nat
  | [] => none
  | [c] => (digitValue? radix c).map (value * radix + ·)
  | c :: '_' :: rest =>
    match digitValue? radix c with
    | some d => digits? radix (value * radix + d) rest
    | none => none
  | c :: c' :: rest =>
    match digitValue? radix c with
    | some d => digits? radix (value * radix + d) (c' :: rest)
    | none => none

/-- Digits without a leading zero. -/
private def decimal? : List Char → Option Nat
  | '0' :: _ :: _ => none
  | cs => digits? 10 0 cs

private def unsigned : List Char → Bool × List Char
  | '-' :: cs => (true, cs)
  | '+' :: cs => (false, cs)
  | cs => (false, cs)

/-- An integer of 64 bits. -/
private def integer? (token : List Char) : Option Int := do
  let n : Int ← match token with
    | '0' :: 'x' :: ds => (digits? 16 0 ds).map Int.ofNat
    | '0' :: 'o' :: ds => (digits? 8 0 ds).map Int.ofNat
    | '0' :: 'b' :: ds => (digits? 2 0 ds).map Int.ofNat
    | _ =>
      let (negative, ds) := unsigned token
      (decimal? ds).map fun n => if negative then -(n : Int) else n
  if Int64.minValue.toInt ≤ n ∧ n ≤ Int64.maxValue.toInt then some n else none

private def isExponent (c : Char) : Bool := c = 'e' || c = 'E'

/-- The notation of a float, value apart. -/
private def isFloat (token : List Char) : Bool :=
  let (_, cs) := unsigned token
  let special := cs = ['i', 'n', 'f'] || cs = ['n', 'a', 'n']
  let mantissa := cs.takeWhile fun c => !isExponent c
  let exponent := cs.dropWhile fun c => !isExponent c
  let whole := mantissa.takeWhile (· ≠ '.')
  let fraction := mantissa.dropWhile (· ≠ '.')
  let isDigits (ds : List Char) : Bool := (digits? 10 0 ds).isSome
  let exponentOk := match exponent with
    | [] => true
    | _ :: ds => isDigits (unsigned ds).2
  let fractionOk := match fraction with
    | [] => !exponent.isEmpty
    | _ :: ds => isDigits ds
  special || ((decimal? whole).isSome && fractionOk && exponentOk)

private def two? (a b : Char) (low high : Nat) : Option Nat := do
  let n := (← digitValue? 10 a) * 10 + (← digitValue? 10 b)
  if low ≤ n ∧ n ≤ high then some n else none

private def isDate : List Char → Bool
  | [y, y', y'', y''', '-', m, m', '-', d, d'] =>
    match two? y y' 0 99, two? y'' y''' 0 99, two? m m' 1 12, two? d d' 1 31 with
    | some c, some y, some month, some day =>
      let year := c * 100 + y
      let leap := (year % 4 = 0 && year % 100 ≠ 0) || year % 400 = 0
      let longest :=
        if month = 2 then if leap then 29 else 28
        else if [4, 6, 9, 11].contains month then 30 else 31
      decide (day ≤ longest)
    | _, _, _, _ => false
  | _ => false

/-- A time of day and what follows it. -/
private def time? : List Char → Option (List Char)
  | h :: h' :: ':' :: m :: m' :: ':' :: s :: s' :: rest => do
    let _ ← two? h h' 0 23
    let _ ← two? m m' 0 59
    let _ ← two? s s' 0 60
    match rest with
    | '.' :: fraction =>
      if (fraction.takeWhile Char.isDigit).isEmpty then none
      else some (fraction.dropWhile Char.isDigit)
    | rest => some rest
  | _ => none

private def isOffset : List Char → Bool
  | [] | ['Z'] | ['z'] => true
  | [sign, h, h', ':', m, m'] =>
    (sign = '+' || sign = '-') && (two? h h' 0 23).isSome && (two? m m' 0 59).isSome
  | _ => false

private def isDatetime (token : List Char) : Bool :=
  isDate token || time? token == some [] ||
    match isDate (token.take 10), token.drop 10 with
    | true, t :: rest =>
      (t = 'T' || t = 't' || t = ' ') && ((time? rest).map isOffset).getD false
    | _, _ => false

private def isTokenChar (c : Char) : Bool :=
  c.isAlphanum || c = '+' || c = '-' || c = '.' || c = '_' || c = ':'

/-- A boolean, a number or a date. A date and a time may be separated by a blank. -/
def readToken (cs : List Char) : Option (Toml × List Char) :=
  let token := cs.takeWhile isTokenChar
  let rest := cs.dropWhile isTokenChar
  let (token, rest) := match isDate token, rest with
    | true, ' ' :: c :: more =>
      if c.isDigit then
        (token ++ ' ' :: (c :: more).takeWhile isTokenChar, (c :: more).dropWhile isTokenChar)
      else (token, rest)
    | _, _ => (token, rest)
  match String.ofList token with
  | "true" => some (.bool true, rest)
  | "false" => some (.bool false, rest)
  | _ =>
    match integer? token with
    | some n => some (.integer n, rest)
    | none =>
      if isFloat token then some (.float, rest)
      else if isDatetime token then some (.datetime, rest)
      else none

/-- The character of a code point, unless it is half a surrogate pair. -/
private def scalar? (ds : List Char) : Option Char := do
  let n ← ds.foldlM (fun n c => (digitValue? 16 c).map (n * 16 + ·)) 0
  if n.isValidChar then some (Char.ofNat n) else none

/-- An escape after its backslash. -/
private def escape? : List Char → Option (Char × List Char)
  | 'u' :: a :: b :: c :: d :: rest => (scalar? [a, b, c, d]).map (·, rest)
  | 'U' :: a :: b :: c :: d :: e :: f :: g :: h :: rest =>
    (scalar? [a, b, c, d, e, f, g, h]).map (·, rest)
  | c :: rest =>
    match c with
    | 'b' => some ('\x08', rest)
    | 't' => some ('\t', rest)
    | 'n' => some ('\n', rest)
    | 'f' => some ('\x0c', rest)
    | 'r' => some ('\r', rest)
    | '"' | '\\' => some (c, rest)
    | _ => none
  | [] => none

/-- A one-line string after its opening quote, with the characters so far in reverse. -/
private def readLine (quote : Char) : Nat → List Char → List Char → Option (String × List Char)
  | 0, _, _ | _, _, [] => none
  | fuel + 1, done, c :: rest =>
    if c = quote then some (String.ofList done.reverse, rest)
    else if c = '\\' ∧ quote = '"' then
      match escape? rest with
      | some (e, rest) => readLine quote fuel (e :: done) rest
      | none => none
    else if isPlain c then readLine quote fuel (c :: done) rest
    else none

/-- A line break and what follows it. -/
def newline? : List Char → Option (List Char)
  | '\n' :: rest => some rest
  | '\r' :: '\n' :: rest => some rest
  | _ => none

/-- Drops blanks and line breaks. -/
private def skipLines : Nat → List Char → List Char
  | 0, cs => cs
  | fuel + 1, cs =>
    match newline? (skipBlank cs) with
    | some rest => skipLines fuel rest
    | none => skipBlank cs

/-- A string over several lines after its opening quotes. -/
private def readLines (quote : Char) : Nat → List Char → List Char → Option (String × List Char)
  | 0, _, _ | _, _, [] => none
  | fuel + 1, done, c :: rest =>
    if c = quote then
      let quotes := (c :: rest).takeWhile (· = quote)
      let after := (c :: rest).dropWhile (· = quote)
      if quotes.length < 3 then readLines quote fuel (quotes ++ done) after
      else if quotes.length ≤ 5 then
        some (String.ofList (done.reverse ++ quotes.drop 3), after)
      else none
    else if c = '\\' ∧ quote = '"' then
      match newline? (skipBlank rest) with
      | some after => readLines quote fuel done (skipLines after.length after)
      | none =>
        match escape? rest with
        | some (e, rest) => readLines quote fuel (e :: done) rest
        | none => none
    else
      match newline? (c :: rest) with
      | some after => readLines quote fuel ('\n' :: done) after
      | none => if isPlain c then readLines quote fuel (c :: done) rest else none

/-- A string in quotes of one line. -/
def readQuoted : List Char → Option (String × List Char)
  | '"' :: rest => readLine '"' (rest.length + 1) [] rest
  | '\'' :: rest => readLine '\'' (rest.length + 1) [] rest
  | _ => none

/-- A string of any kind. -/
def readString : List Char → Option (String × List Char)
  | '"' :: '"' :: '"' :: rest =>
    let rest := (newline? rest).getD rest
    readLines '"' (rest.length + 1) [] rest
  | '\'' :: '\'' :: '\'' :: rest =>
    let rest := (newline? rest).getD rest
    readLines '\'' (rest.length + 1) [] rest
  | cs => readQuoted cs

private def isBare (c : Char) : Bool := c.isAlphanum || c = '_' || c = '-'

/-- One part of a key. -/
private def readPart (cs : List Char) : Option (String × List Char) :=
  match cs.takeWhile isBare with
  | [] => readQuoted cs
  | name => some (String.ofList name, cs.dropWhile isBare)

/-- A dotted key of a limited number of parts: those before the last and the last. -/
def readKey : Nat → List Char → Option ((List String × String) × List Char)
  | 0, _ => none
  | fuel + 1, cs => do
    let (part, rest) ← readPart cs
    match skipBlank rest with
    | '.' :: rest =>
      let ((path, key), rest) ← readKey fuel (skipBlank rest)
      return ((part :: path, key), rest)
    | _ => return (([], part), rest)

/-- The rest of a line: blanks, a comment, a line break. -/
def readLineEnd (cs : List Char) : Option (List Char) :=
  let cs := match skipBlank cs with
    | '#' :: comment => comment.dropWhile isPlain
    | cs => cs
  if cs.isEmpty then some [] else newline? cs

end TraitLang.Toml
