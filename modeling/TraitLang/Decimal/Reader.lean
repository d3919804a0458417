import TraitLang.Decimal.Shortest

/-!
Reading floats from decimal notation: sign, digits with or without a point, exponent, and the names
of the values that are no numbers.
-/
namespace TraitLang.Text

private def digitsSpan (cs : List Char) : List Char × List Char :=
  (cs.takeWhile Char.isDigit, cs.dropWhile Char.isDigit)

private def natOf (ds : List Char) : Nat :=
  ds.foldl (fun n c => n * 10 + (c.toNat - '0'.toNat)) 0

/-- Sign and what follows it. -/
private def signed : List Char → Bool × List Char
  | '-' :: cs => (true, cs)
  | '+' :: cs => (false, cs)
  | cs => (false, cs)

/-- The exponent, which has to be all that is left. -/
private def exponent? : List Char → Option Int
  | [] => some 0
  | c :: cs =>
    if c = 'e' || c = 'E' then
      let (negative, cs) := signed cs
      match digitsSpan cs with
      | ([], _) | (_, _ :: _) => none
      | (ds, []) => some (if negative then -(natOf ds : Int) else natOf ds)
    else none

private def magnitude? (cs : List Char) : Option Float := do
  let (whole, rest) := digitsSpan cs
  let (fraction, rest) := match rest with
    | '.' :: rest => digitsSpan rest
    | rest => ([], rest)
  let exponent ← exponent? rest
  if whole.isEmpty ∧ fraction.isEmpty then none
  else return Decimal.toFloat ⟨natOf (whole ++ fraction), exponent - fraction.length⟩

/-- The float that a text denotes. -/
def readFloat? (s : String) : Option Float :=
  let (negative, cs) := signed s.toList
  let magnitude := match String.ofList (cs.map Char.toLower) with
    | "inf" | "infinity" => some (1.0 / 0.0)
    | "nan" => some (0.0 / 0.0)
    | _ => magnitude? cs
  magnitude.map fun x => if negative then -x else x

end TraitLang.Text
