import TraitLang.Decimal.Shortest

/-!
JSON documents. Members keep their order and may repeat; an integer is kept apart from a number
written with a point or an exponent.
-/
namespace TraitLang

inductive JsonNumber where
  | integer (n : Int)
  /-- written with a fraction or an exponent, or as a negative zero -/
  | decimal (negative : Bool) (magnitude : Decimal)
deriving DecidableEq, Repr, Inhabited

/-- A text is `none` if one of its escapes is half a surrogate pair: such a text can be skipped but
not read. -/
inductive Json where
  | null
  | bool (b : Bool)
  | number (n : JsonNumber)
  | string (s : Option String)
  | array (items : List Json)
  | object (members : List (Option String × Json))
deriving Inhabited

namespace JsonNumber

/-- The nearest float, unless the number exceeds them all. -/
def toFloat? : JsonNumber → Option Float
  | integer n => finite (n < 0) ⟨n.natAbs, 0⟩
  | decimal negative magnitude => finite negative magnitude
where
  finite (negative : Bool) (d : Decimal) : Option Float :=
    let x := d.toFloat
    if x.isInf then none else some (if negative then -x else x)

end JsonNumber

namespace Json

def ofString (s : String) : Json := .string (some s)

def ofInt (n : Int) : Json := .number (.integer n)

def ofNat (n : Nat) : Json := .ofInt n

def ofList (items : List Json) : Json := .array items

/-- An object with the given members. -/
def record (members : List (String × Json)) : Json :=
  .object (members.map fun (k, v) => (some k, v))

/-- The value of the first member of that name. -/
def get? (key : String) : Json → Option Json
  | object members => members.lookup (some key)
  | _ => none

end Json

end TraitLang
