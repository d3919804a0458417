import TraitLang.Apply

/-!
What the native part of a builtin gets. A builtin that declares its parameters is invoked with the
arguments supplied and the last of its defaults, if that makes as many as there are parameters; with
fewer it waits or fails, with more it fails. Main statement: the arguments are completed without
reaching past the defaults, and each parameter has a default of its own.
-/
namespace TraitLang

namespace Builtin

/-- The arguments are as many as the builtin declares parameters, if it declares them. -/
def Takes (b : Builtin) (args : List Value) : Prop := ∀ n, b.arity = some n → args.length = n

/-- The arguments supplied, with the last defaults for those left out of `n`. -/
def completed (b : Builtin) (n : Nat) (args : List Value) : List Value :=
  args ++ b.defaults.drop (b.defaults.length - (n - args.length))

variable {b : Builtin} {n : Nat} {args : List Value}

theorem takes_of_arity_eq_none (h : b.arity = none) : b.Takes args := fun n hn => by
  rw [h] at hn
  cases hn

/-- With enough arguments none at all is enough only if there is a default for each parameter. -/
theorem not_isEmpty_of_le (h : n - b.defaults.length ≤ args.length) :
    ¬(args.isEmpty = true ∧ 0 < n - b.defaults.length) := by
  rintro ⟨hempty, hpos⟩
  rw [List.isEmpty_iff_length_eq_zero] at hempty
  omega

/-- There are enough defaults for the arguments that may be left out. -/
theorem omitted_le_defaults (h : n - b.defaults.length ≤ args.length) :
    n - args.length ≤ b.defaults.length := by
  omega

theorem length_completed (hleast : n - b.defaults.length ≤ args.length) (hmost : args.length ≤ n) :
    (b.completed n args).length = n := by
  have henough := omitted_le_defaults hleast
  rw [completed, List.length_append, List.length_drop]
  omega

theorem takes_completed (harity : b.arity = some n) (hleast : n - b.defaults.length ≤ args.length)
    (hmost : args.length ≤ n) : b.Takes (b.completed n args) := by
  intro k hk
  obtain rfl : n = k := Option.some.inj (harity.symm.trans hk)
  exact length_completed hleast hmost

theorem getElem?_completed_of_lt {i : Nat} (hi : i < args.length) :
    (b.completed n args)[i]? = args[i]? :=
  List.getElem?_append_left hi

/-- Counted from the last one, parameters and defaults correspond. -/
theorem getElem?_completed_of_le {i : Nat} (hdefaults : b.defaults.length ≤ n)
    (hleast : n - b.defaults.length ≤ args.length) (hmost : args.length ≤ n)
    (hi : args.length ≤ i) :
    (b.completed n args)[i]? = b.defaults[i - (n - b.defaults.length)]? := by
  rw [completed, List.getElem?_append_right hi, List.getElem?_drop]
  congr 1
  omega

/-- `final` is what the native part of a builtin with `n` parameters gets if `supplied` are the
arguments supplied. -/
structure Completes (b : Builtin) (n : Nat) (supplied final : List Value) : Prop where
  notMore : supplied.length ≤ n
  /-- the slice of defaults starts inside the defaults -/
  inRange : n - supplied.length ≤ b.defaults.length
  length_eq : final.length = n
  kept : ∀ i < supplied.length, final[i]? = supplied[i]?
  /-- the default of a parameter does not depend on what is supplied -/
  filled : b.defaults.length ≤ n → ∀ i, supplied.length ≤ i → i < n →
    i - (n - b.defaults.length) < b.defaults.length ∧
      final[i]? = b.defaults[i - (n - b.defaults.length)]?

theorem completes_completed (hleast : n - b.defaults.length ≤ args.length)
    (hmost : args.length ≤ n) : b.Completes n args (b.completed n args) where
  notMore := hmost
  inRange := omitted_le_defaults hleast
  length_eq := length_completed hleast hmost
  kept _ := getElem?_completed_of_lt
  filled hdefaults i hi hin :=
    ⟨by omega, getElem?_completed_of_le hdefaults hleast hmost hi⟩

end Builtin

namespace Run

variable {b : Builtin} {n : Nat} {args : List Value} (a : Apply)

theorem callBuiltin_of_arity_eq_none (h : b.arity = none) :
    callBuiltin a b args = invoke a b args := by
  rw [callBuiltin, h]

/-- As many arguments as can be completed. -/
theorem callBuiltin_of_enough (harity : b.arity = some n)
    (hleast : n - b.defaults.length ≤ (plainArgs args).length)
    (hmost : (plainArgs args).length ≤ n) :
    callBuiltin a b args = invoke a b (b.completed n (plainArgs args)) := by
  rw [callBuiltin, harity]
  dsimp only
  rw [if_neg (Builtin.not_isEmpty_of_le hleast), if_neg (by omega), if_neg (by omega)]
  rfl

/-- Too few arguments: none at all is an error, some are kept until the rest arrives. -/
theorem callBuiltin_of_lt (harity : b.arity = some n)
    (hfew : (plainArgs args).length < n - b.defaults.length) :
    callBuiltin a b args =
      if (plainArgs args).isEmpty then fail (.missingArguments b.name (n - b.defaults.length))
      else partialApp (.builtin b) (plainArgs args)
        (n - b.defaults.length - (plainArgs args).length) := by
  rw [callBuiltin, harity]
  dsimp only
  cases hempty : (plainArgs args).isEmpty with
  | true =>
    rw [if_pos ⟨rfl, by omega⟩]
    rfl
  | false =>
    rw [if_neg (by simp), if_pos hfew]
    rfl

/-- Too many arguments. -/
theorem callBuiltin_of_gt (harity : b.arity = some n) (hmany : n < (plainArgs args).length) :
    callBuiltin a b args = fail (.arityMismatch b.name n (plainArgs args).length) := by
  have hleast : n - b.defaults.length ≤ (plainArgs args).length := by omega
  rw [callBuiltin, harity]
  dsimp only
  rw [if_neg (Builtin.not_isEmpty_of_le hleast), if_neg (by omega), if_pos hmany]

end Run

end TraitLang
