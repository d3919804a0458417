/-!
Decimal numbers of exact value, and the shortest one that reads back as a given binary number. The
search goes over the grids of one, two, … digits and tests the two neighbours of the value on each,
in integer arithmetic.
-/
namespace TraitLang

/-- `digits * 10 ^ exponent` -/
structure Decimal where
  digits : Nat
  exponent : Int
deriving DecidableEq, Repr, Inhabited

/-- A finite number without sign, `significand * 2 ^ exponent`. -/
structure Binary where
  significand : Nat
  exponent : Int
  /-- the neighbour below is half as far away as the one above -/
  closeBelow : Bool
deriving DecidableEq, Repr

/-- Which of two equally close decimals of one length is taken. -/
inductive Tie where
  | even
  | up
deriving DecidableEq, Repr

namespace Binary

/-- Reads the bits of a finite number; the sign is not looked at. -/
def ofBits (bits : UInt64) : Binary :=
  let field := ((bits >>> 52) &&& 0x7FF).toNat
  let fraction := (bits &&& 0xFFFFFFFFFFFFF).toNat
  if field = 0 then ⟨fraction, -1074, false⟩
  else ⟨Nat.pow 2 52 + fraction, (field : Int) - 1075, fraction = 0 && 1 < field⟩

def num (b : Binary) : Nat := b.significand * Nat.pow 2 b.exponent.toNat

def den (b : Binary) : Nat := Nat.pow 2 (-b.exponent).toNat

/-- `quarters / 4` units of the last binary place, compared with a decimal. -/
def compareQuarters (b : Binary) (quarters : Nat) (d : Decimal) : Ordering :=
  compare (quarters * Nat.pow 2 b.exponent.toNat * Nat.pow 10 (-d.exponent).toNat)
    (4 * d.digits * Nat.pow 10 d.exponent.toNat * b.den)

/-- The decimal lies between the midpoints to both neighbours; a midpoint itself belongs to the
number with the even significand. -/
def readsBack (b : Binary) (d : Decimal) : Bool :=
  let lower := b.compareQuarters (4 * b.significand - if b.closeBelow then 1 else 2) d
  let upper := b.compareQuarters (4 * b.significand + 2) d
  let even := b.significand % 2 = 0
  (lower = .lt || (even && lower = .eq)) && (upper = .gt || (even && upper = .eq))

def belowPow (b : Binary) (k : Int) : Bool :=
  b.num * Nat.pow 10 (-k).toNat < b.den * Nat.pow 10 k.toNat

/-- The least `k` with the value below `10 ^ k`, found near an estimate from the logarithm. -/
def magnitude (b : Binary) : Int :=
  let estimate := ((b.significand.log2 : Int) + b.exponent) * 30103 / 100000
  ([0, 1, 2, 3].map fun (i : Int) => estimate + i).find? b.belowPow |>.getD (estimate + 4)

/-- The grid point of `10 ^ exponent` next to the value that reads back, if there is one. -/
def onGrid (b : Binary) (tie : Tie) (exponent : Int) : Option Decimal :=
  let n := b.num * Nat.pow 10 (-exponent).toNat
  let d := b.den * Nat.pow 10 exponent.toNat
  let below : Decimal := ⟨n / d, exponent⟩
  let above : Decimal := ⟨n / d + 1, exponent⟩
  match b.readsBack below, b.readsBack above with
  | false, false => none
  | true, false => some below
  | false, true => some above
  | true, true =>
    match compare (2 * (n % d)) d, tie with
    | .lt, _ => some below
    | .gt, _ => some above
    | .eq, .up => some above
    | .eq, .even => some (if below.digits % 2 = 0 then below else above)

def exact (b : Binary) : Decimal :=
  if 0 ≤ b.exponent then ⟨b.num, 0⟩
  else ⟨b.significand * Nat.pow 5 (-b.exponent).toNat, b.exponent⟩

end Binary

namespace Decimal

/-- Moves trailing zeros of the digits into the exponent, at most `fuel` of them. -/
def strip : Nat → Decimal → Decimal
  | 0, d => d
  | fuel + 1, d =>
    if d.digits ≠ 0 ∧ d.digits % 10 = 0 then strip fuel ⟨d.digits / 10, d.exponent + 1⟩ else d

/-- The shortest decimal that reads back, the closest one of that length. -/
def shortest (tie : Tie) (b : Binary) : Decimal :=
  if b.significand = 0 then ⟨0, 0⟩
  else
    let k := b.magnitude
    let found := (List.range 17).findSome? fun (i : Nat) => b.onGrid tie (k - 1 - i)
    strip 20 (found.getD b.exact)

/-- Nearest floating-point number; infinite above the largest one. -/
def toFloat (d : Decimal) : Float :=
  let lead := (d.digits.log2 : Int) * 30103 / 100000 + d.exponent
  if d.digits = 0 then 0.0
  else if 320 < lead then 1.0 / 0.0
  else if lead < -340 then 0.0
  else Float.ofScientific d.digits (d.exponent < 0) d.exponent.natAbs

end Decimal

end TraitLang
