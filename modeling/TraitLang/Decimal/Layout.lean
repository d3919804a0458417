import TraitLang.Decimal.Shortest

/-!
Text of numbers. Running programs show floats positionally, as long as it takes; the interchange
format switches to an exponent for very large and very small values and always marks a float as one.
-/
namespace TraitLang

namespace Decimal

private def digitText (n : Nat) : List Char := Nat.toDigits 10 n

private def zeros (n : Nat) : List Char := List.replicate n '0'

/-- Without exponent; `whole` follows a value without fraction. -/
def positional (whole : String) (d : Decimal) : String :=
  let ds := digitText d.digits
  if 0 ≤ d.exponent then String.ofList (ds ++ zeros d.exponent.toNat) ++ whole
  else
    let places := d.exponent.natAbs
    if places < ds.length then
      String.ofList (ds.take (ds.length - places) ++ '.' :: ds.drop (ds.length - places))
    else String.ofList ('0' :: '.' :: zeros (places - ds.length) ++ ds)

/-- Decimal exponent of the leading digit. -/
def leading (d : Decimal) : Int := (digitText d.digits).length + d.exponent - 1

/-- One digit before the point and a signed exponent. -/
def scientific (d : Decimal) : String :=
  let tail := match digitText d.digits with
    | [] => []
    | [c] => [c]
    | c :: cs => c :: '.' :: cs
  let e := d.leading
  String.ofList tail ++ (if e < 0 then "e-" else "e+") ++ toString e.natAbs

/-- Layout of the interchange format. -/
def interchange (d : Decimal) : String :=
  if -5 ≤ d.leading ∧ d.leading ≤ 15 then d.positional ".0" else d.scientific

end Decimal

namespace Text

/-- The sign bit is set. -/
def isNegative (x : Float) : Bool := x.toBits >>> 63 = 1

/-- How a running program shows a float. -/
def floatText (x : Float) : String :=
  if x.isNaN then "NaN"
  else
    let magnitude :=
      if x.isInf then "inf" else (Decimal.shortest .up (Binary.ofBits x.toBits)).positional ""
    if isNegative x then "-" ++ magnitude else magnitude

end Text

end TraitLang
