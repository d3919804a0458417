import TraitLang.Arith
import TraitLang.Native
import Mathlib.Data.Int.ModEq
import Mathlib.Order.Lattice

/-!
Integers of 64 bits. Main statement: sums, differences and products are the exact ones reduced to
the range of 64 bits; quotient and remainder exist unless the divisor is zero and go together, also
where the quotient leaves the range; and the length of a range is exact up to the largest integer.
-/
namespace TraitLang

/-- The 64 bits that are left of an exact result. -/
structure WrapsTo (exact : Int) (n : Int64) : Prop where
  congruent : n.toInt ≡ exact [ZMOD 2 ^ 64]
  lower : -2 ^ 63 ≤ n.toInt
  upper : n.toInt < 2 ^ 63

theorem WrapsTo.of_bmod {exact : Int} {n : Int64} (h : n.toInt = exact.bmod (2 ^ 64)) :
    WrapsTo exact n where
  congruent := by
    rw [h]
    exact Int.bmod_emod
  lower := n.le_toInt
  upper := n.toInt_lt

section Division

variable {b : Int64}

theorem toInt_ne_zero (hb : b ≠ 0) : b.toInt ≠ 0 := by
  intro h
  exact hb (Int64.toInt_inj.1 (h.trans Int64.toInt_zero.symm))

/-- Quotient and remainder go together modulo `2 ^ 64`, where the one quotient that leaves the range
is no exception. -/
theorem div_mul_add_mod (a b : Int64) : a / b * b + a % b = a := by
  apply Int64.toInt_inj.1
  calc (a / b * b + a % b).toInt
    _ = (((a.toInt.tdiv b.toInt).bmod (2 ^ 64) * b.toInt).bmod (2 ^ 64) +
          a.toInt.tmod b.toInt).bmod (2 ^ 64) := by
      rw [Int64.toInt_add, Int64.toInt_mul, Int64.toInt_div, Int64.toInt_mod]
    _ = (a.toInt.tdiv b.toInt * b.toInt + a.toInt.tmod b.toInt).bmod (2 ^ 64) := by
      rw [Int.bmod_mul_bmod, Int.bmod_add_bmod]
    _ = a.toInt.bmod (2 ^ 64) := by rw [Int.tdiv_mul_add_tmod]
    _ = a.toInt := a.toInt_bmod

theorem natAbs_mod_lt (a : Int64) (hb : b ≠ 0) :
    (a % b).toInt.natAbs < b.toInt.natAbs := by
  rw [Int64.toInt_mod, Int.natAbs_tmod]
  exact Nat.mod_lt _ (Int.natAbs_pos.2 (toInt_ne_zero hb))

theorem mod_eq_zero_or_sign_eq (a b : Int64) :
    (a % b).toInt = 0 ∨ (a % b).toInt.sign = a.toInt.sign := by
  rw [Int64.toInt_mod, Int.sign_tmod]
  by_cases hdvd : b.toInt ∣ a.toInt
  · exact .inl (Int.tmod_eq_zero_of_dvd hdvd)
  · exact .inr (if_neg hdvd)

end Division

section Ranges

theorem toInt_saturatingSub (a b : Int64) :
    (saturatingSub a b).toInt = max (-2 ^ 63) (min (a.toInt - b.toInt) (2 ^ 63 - 1)) := by
  have ha := a.le_toInt
  have ha' := a.toInt_lt
  have hb := b.le_toInt
  have hb' := b.toInt_lt
  have hsub := Int64.toInt_sub a b
  rw [Int.bmod_def] at hsub
  unfold saturatingSub
  simp only [Int64.lt_iff_toInt_lt, Int64.toInt_zero]
  -- a wrapped difference is on the wrong side of `a` exactly if the exact one is out of range
  split_ifs with hupper hlower
  · rw [Int64.toInt_maxValue]
    omega
  · rw [Int64.toInt_minValue]
    omega
  · omega

theorem toInt_rangeLength (start stop : Int64) :
    (rangeLength start stop).toInt = max 0 (min (stop.toInt - start.toInt) (2 ^ 63 - 1)) := by
  have hsub := toInt_saturatingSub stop start
  unfold rangeLength
  simp only [Int64.lt_iff_toInt_lt, Int64.toInt_zero]
  split_ifs with hnegative
  · rw [Int64.toInt_zero]
    omega
  · omega

end Ranges

/-- How operators end on two integers: with a value, but for a divisor of zero and for the
connectives, which want truth values. -/
theorem eval_int_cases (op : BinOp) (a b : Int64) :
    (∃ v, op.eval (.int a) (.int b) = .ok v) ∨
    (op = .div ∨ op = .mod) ∧ b = 0 ∧ op.eval (.int a) (.int b) = .error .divisionByZero ∨
    (op = .and ∨ op = .or) ∧
      op.eval (.int a) (.int b) = operandError "Bool" op (.int a) (.int b) := by
  cases op with
  | div =>
    by_cases hb : b = 0
    · exact .inr (.inl ⟨.inl rfl, hb, if_pos hb⟩)
    · exact .inl ⟨_, if_neg hb⟩
  | mod =>
    by_cases hb : b = 0
    · exact .inr (.inl ⟨.inr rfl, hb, if_pos hb⟩)
    · exact .inl ⟨_, if_neg hb⟩
  | and => exact .inr (.inr ⟨.inl rfl, rfl⟩)
  | or => exact .inr (.inr ⟨.inr rfl, rfl⟩)
  | _ => exact .inl ⟨_, rfl⟩

theorem eval_division_error_iff {op : BinOp} (hop : op = .div ∨ op = .mod) (a b : Int64) :
    op.eval (.int a) (.int b) = .error .divisionByZero ↔ b = 0 := by
  by_cases hb : b = 0
  · refine iff_of_true ?_ hb
    rcases hop with rfl | rfl <;> exact if_pos hb
  · refine iff_of_false (fun herror => ?_) hb
    rcases hop with rfl | rfl <;> cases herror.symm.trans (if_neg hb)

/-- For all integers of 64 bits: every operator ends with a value or with one of two faults. Sums,
differences and products are exact up to a multiple of `2 ^ 64`. Quotient and remainder fail exactly
on a divisor of zero; otherwise the quotient times the divisor plus the remainder gives the dividend
back, all with the wrapping operators, and the remainder is smaller in magnitude than the divisor
and is zero or has the sign of the dividend. The length of a range is the number of its integers, at
most the largest integer. -/
theorem integer_arithmetic (a b : Int64) :
    (∀ op : BinOp, (∃ v, op.eval (.int a) (.int b) = .ok v) ∨
      (op = .div ∨ op = .mod) ∧ b = 0 ∧ op.eval (.int a) (.int b) = .error .divisionByZero ∨
      (op = .and ∨ op = .or) ∧
        op.eval (.int a) (.int b) = operandError "Bool" op (.int a) (.int b)) ∧
    (∃ n, BinOp.add.eval (.int a) (.int b) = .ok (.int n) ∧ WrapsTo (a.toInt + b.toInt) n) ∧
    (∃ n, BinOp.sub.eval (.int a) (.int b) = .ok (.int n) ∧ WrapsTo (a.toInt - b.toInt) n) ∧
    (∃ n, BinOp.mul.eval (.int a) (.int b) = .ok (.int n) ∧ WrapsTo (a.toInt * b.toInt) n) ∧
    (BinOp.div.eval (.int a) (.int b) = .error .divisionByZero ↔ b = 0) ∧
    (BinOp.mod.eval (.int a) (.int b) = .error .divisionByZero ↔ b = 0) ∧
    (b ≠ 0 → ∃ q p r,
      BinOp.div.eval (.int a) (.int b) = .ok (.int q) ∧ WrapsTo (a.toInt.tdiv b.toInt) q ∧
      BinOp.mod.eval (.int a) (.int b) = .ok (.int r) ∧
      BinOp.mul.eval (.int q) (.int b) = .ok (.int p) ∧
      BinOp.add.eval (.int p) (.int r) = .ok (.int a) ∧
      r.toInt.natAbs < b.toInt.natAbs ∧ (r.toInt = 0 ∨ r.toInt.sign = a.toInt.sign)) ∧
    ∃ n, CoreNative.length.action [.range a b] = .done (.int n) ∧
      n.toInt = max 0 (min (b.toInt - a.toInt) (2 ^ 63 - 1)) := by
  refine ⟨fun op => eval_int_cases op a b, ?_, ?_, ?_, eval_division_error_iff (.inl rfl) a b,
    eval_division_error_iff (.inr rfl) a b, fun hb => ?_, ?_⟩
  · exact ⟨a + b, rfl, .of_bmod (Int64.toInt_add a b)⟩
  · exact ⟨a - b, rfl, .of_bmod (Int64.toInt_sub a b)⟩
  · exact ⟨a * b, rfl, .of_bmod (Int64.toInt_mul a b)⟩
  · have hsum : BinOp.add.eval (.int (a / b * b)) (.int (a % b)) = .ok (.int a) :=
      congrArg (fun n => Except.ok (Value.int n)) (div_mul_add_mod a b)
    exact ⟨a / b, a / b * b, a % b, if_neg hb, .of_bmod (Int64.toInt_div a b), if_neg hb, rfl,
      hsum, natAbs_mod_lt a hb, mod_eq_zero_or_sign_eq a b⟩
  · exact ⟨rangeLength a b, rfl, toInt_rangeLength a b⟩

/-- The one quotient that leaves the range: it wraps to the dividend, and nothing remains. -/
theorem integer_arithmetic_lowest :
    (-1 : Int64) ≠ 0 ∧ ∃ q p r,
      BinOp.div.eval (.int Int64.minValue) (.int (-1)) = .ok (.int q) ∧
      WrapsTo (Int64.minValue.toInt.tdiv (-1 : Int64).toInt) q ∧
      BinOp.mod.eval (.int Int64.minValue) (.int (-1)) = .ok (.int r) ∧
      BinOp.mul.eval (.int q) (.int (-1)) = .ok (.int p) ∧
      BinOp.add.eval (.int p) (.int r) = .ok (.int Int64.minValue) ∧
      r.toInt.natAbs < (-1 : Int64).toInt.natAbs ∧
      (r.toInt = 0 ∨ r.toInt.sign = Int64.minValue.toInt.sign) := by
  have hne : (-1 : Int64) ≠ 0 := by decide
  exact ⟨hne, (integer_arithmetic Int64.minValue (-1)).2.2.2.2.2.2.1 hne⟩

end TraitLang
