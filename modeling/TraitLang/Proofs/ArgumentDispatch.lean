import TraitLang.Proofs.Independence

/-!
Dispatch by the types of the arguments. Main statement: a method that is registered under these very
types and takes the arguments is chosen if the trait has as many parameters; else the choice is the
first best of the instances that match at all, have the method and take the arguments. The order of
registration decides between instances of one score, and how many parameters the trait has.
-/
namespace TraitLang

section FirstBest

variable {α : Type} {score : α → Nat} {l : List α} {best : α}

/-- The first of the best: what stands before it scores less, what stands after it no more. -/
def FirstBest (score : α → Nat) (l : List α) (best : α) : Prop :=
  ∃ before after, l = before ++ best :: after ∧
    (∀ a ∈ before, score a < score best) ∧ ∀ a ∈ after, score a ≤ score best

theorem firstBest_iff :
    FirstBest score l best ↔
      (∀ a ∈ l, score a ≤ score best) ∧ l.find? (score · = score best) = some best := by
  rw [List.find?_eq_some_iff_append]
  constructor
  · rintro ⟨before, after, rfl, hbefore, hafter⟩
    refine ⟨fun a ha => ?_, by simp, before, after, rfl, fun a ha => ?_⟩
    · rcases List.mem_append.1 ha with ha | ha
      · exact Nat.le_of_lt (hbefore a ha)
      · rcases List.mem_cons.1 ha with rfl | ha
        · exact Nat.le_refl _
        · exact hafter a ha
    · have hlt := hbefore a ha
      simp only [Bool.not_eq_true', decide_eq_false_iff_not]
      omega
  · rintro ⟨hmax, -, before, after, rfl, hbefore⟩
    refine ⟨before, after, rfl, fun a ha => ?_, fun a ha => hmax a (by simp [ha])⟩
    have hle := hmax a (by simp [ha])
    have hne : score a ≠ score best := by simpa using hbefore a ha
    omega

/-- A stable sort by descending score keeps the order of what has one score. -/
theorem filter_mergeSort_score (score : α → Nat) (n : Nat) (l : List α) :
    (l.mergeSort fun a b => score b ≤ score a).filter (score · = n) = l.filter (score · = n) := by
  rw [filter_mergeSort (descending_trans score) (descending_total score)]
  apply List.mergeSort_of_pairwise
  apply List.pairwise_of_forall_mem_list
  intro a ha b hb
  simp only [List.mem_filter, decide_eq_true_eq] at ha hb ⊢
  omega

/-- What a list sorted by descending score starts with. -/
theorem head?_sorted_iff (h : l.Pairwise fun a b => score b ≤ score a) :
    l.head? = some best ↔
      (∀ a ∈ l, score a ≤ score best) ∧ l.find? (score · = score best) = some best := by
  cases l with
  | nil => simp
  | cons a l =>
    have hfirst : ∀ b ∈ l, score b ≤ score a := fun b => List.rel_of_pairwise_cons h
    constructor
    · intro hhead
      obtain rfl : a = best := by simpa using hhead
      exact ⟨List.forall_mem_cons.2 ⟨Nat.le_refl _, hfirst⟩, by simp⟩
    · rintro ⟨hmax, hfind⟩
      have hle : score a ≤ score best := hmax a List.mem_cons_self
      have hge : score best ≤ score a := by
        rcases List.mem_cons.1 (List.mem_of_find?_eq_some hfind) with rfl | hbest
        · exact Nat.le_refl _
        · exact hfirst best hbest
      have heq : score a = score best := Nat.le_antisymm hle hge
      simpa [heq] using hfind

/-- A stable sort by descending score brings the first of the best to the front. -/
theorem head?_mergeSort_iff :
    (l.mergeSort fun a b => score b ≤ score a).head? = some best ↔ FirstBest score l best := by
  have hsorted : (l.mergeSort fun a b => score b ≤ score a).Pairwise
      fun a b => score b ≤ score a := by
    have h := List.pairwise_mergeSort (descending_trans score) (descending_total score) l
    exact h.imp fun hab => by simpa using hab
  rw [head?_sorted_iff hsorted, firstBest_iff, ← List.head?_filter, filter_mergeSort_score,
    List.head?_filter]
  simp only [List.mem_mergeSort]

/-- Lists that agree on the elements of each score have the same first best. -/
theorem firstBest_congr {l' : List α}
    (h : ∀ n, l'.filter (score · = n) = l.filter (score · = n)) :
    FirstBest score l' best ↔ FirstBest score l best := by
  have hmem (a : α) : a ∈ l' ↔ a ∈ l := by
    have hscore := congrArg (a ∈ ·) (h (score a))
    simpa using hscore
  rw [firstBest_iff, firstBest_iff, ← List.head?_filter, h, List.head?_filter]
  simp only [hmem]

end FirstBest

namespace Registry

/-- The instance has the method, and it takes the arguments. -/
def Serves (r : Registry) (m : ClassMethod) (args : List Value) (key : TypeKey) : Bool :=
  (r.lookup? m.traitName key m.method).any fun callee => r.acceptsArgs callee args

/-- Instances with a positive score that serve, in the order of their registration. -/
def contenders (r : Registry) (m : ClassMethod) (types : List String) (args : List Value)
    (contextName : Option String) : List TypeKey :=
  (r.instanceKeys m.traitName).filter fun key =>
    0 < scoreKey key types contextName && r.Serves m args key

variable {r r' : Registry} {m : ClassMethod} {types : List String} {args : List Value}
  {contextName : Option String} {exact : Bool} {key : TypeKey} {found : Candidate}

theorem serves_iff :
    r.Serves m args key = true ↔
      ∃ callee, r.lookup? m.traitName key m.method = some callee ∧
        r.acceptsArgs callee args = true := by
  simp [Serves, Option.any_eq_true]

theorem offer?_eq_some_iff :
    r.offer? m args exact key = some found ↔
      r.Serves m args key = true ∧ found.key = key ∧ found.exact = exact ∧
        r.lookup? m.traitName key m.method = some found.callee := by
  cases hlookup : r.lookup? m.traitName key m.method with
  | none => simp [offer?, Serves, hlookup]
  | some callee =>
    by_cases haccepts : r.acceptsArgs callee args = true
    · have hoffer : r.offer? m args exact key = some { key, callee, exact } := by
        simp [offer?, hlookup, haccepts]
      have hserves : r.Serves m args key = true := serves_iff.2 ⟨callee, hlookup, haccepts⟩
      rw [hoffer]
      constructor
      · rintro ⟨rfl⟩
        exact ⟨hserves, rfl, rfl, rfl⟩
      · rintro ⟨-, rfl, rfl, hcallee⟩
        rw [Option.some.inj hcallee]
    · simp [offer?, Serves, hlookup, haccepts]

theorem offer?_eq_none_iff :
    r.offer? m args exact key = none ↔ r.Serves m args key = false := by
  cases hlookup : r.lookup? m.traitName key m.method with
  | none => simp [offer?, Serves, hlookup]
  | some callee => simp [offer?, Serves, hlookup]

theorem firstAccepting?_eq_none_iff {keys : List TypeKey} :
    r.firstAccepting? m args exact keys = none ↔ ∀ key ∈ keys, r.Serves m args key = false := by
  rw [firstAccepting?_eq, List.findSome?_eq_none_iff]
  simp only [offer?_eq_none_iff]

/-- A search finds the method of the first instance that serves. -/
theorem firstAccepting?_eq_some_iff {keys : List TypeKey} :
    r.firstAccepting? m args exact keys = some found ↔
      (keys.filter (r.Serves m args)).head? = some found.key ∧ found.exact = exact ∧
        r.lookup? m.traitName found.key m.method = some found.callee := by
  rw [firstAccepting?_eq]
  induction keys with
  | nil => simp
  | cons key keys ih =>
    rw [List.findSome?_cons]
    cases hoffer : r.offer? m args exact key with
    | none =>
      have hnot : r.Serves m args key = false := offer?_eq_none_iff.1 hoffer
      rw [List.filter_cons_of_neg (by simp [hnot]), ← ih]
    | some c =>
      obtain ⟨hserves, hkey, hexact, hlookup⟩ := offer?_eq_some_iff.1 hoffer
      rw [List.filter_cons_of_pos hserves, List.head?_cons]
      constructor
      · rintro ⟨rfl⟩
        exact ⟨by rw [hkey], hexact, by rw [hkey, hlookup]⟩
      · rintro ⟨hsame, hexact', hlookup'⟩
        obtain rfl : key = found.key := by simpa using hsame
        have hfound : r.offer? m args exact found.key = some found :=
          offer?_eq_some_iff.2 ⟨hserves, rfl, hexact', hlookup'⟩
        rw [← hoffer, hfound]

theorem scoredKeys_eq (r : Registry) (traitName : String) (types : List String)
    (contextName : Option String) :
    r.scoredKeys traitName types contextName =
      ((r.instanceKeys traitName).filter fun key => 0 < scoreKey key types contextName).mergeSort
        fun a b => scoreKey b types contextName ≤ scoreKey a types contextName := by
  unfold scoredKeys
  dsimp only
  rw [List.filter_map, ← List.map_mergeSort
    (r := fun a b => scoreKey b types contextName ≤ scoreKey a types contextName) (by simp),
    List.map_map]
  exact List.map_id _

/-- Sorting what serves brings the contenders into the order of their scores. -/
theorem filter_scoredKeys_serves (r : Registry) (m : ClassMethod) (types : List String)
    (args : List Value) (contextName : Option String) :
    (r.scoredKeys m.traitName types contextName).filter (r.Serves m args) =
      (r.contenders m types args contextName).mergeSort
        fun a b => scoreKey b types contextName ≤ scoreKey a types contextName := by
  rw [scoredKeys_eq, filter_mergeSort (descending_trans (scoreKey · types contextName))
    (descending_total (scoreKey · types contextName)), List.filter_filter]
  simp only [contenders, Bool.and_comm]

theorem firstAccepting?_scored_iff :
    r.firstAccepting? m args false (r.scoredKeys m.traitName types contextName) = some found ↔
      FirstBest (scoreKey · types contextName) (r.contenders m types args contextName) found.key ∧
        found.exact = false ∧ r.lookup? m.traitName found.key m.method = some found.callee := by
  rw [firstAccepting?_eq_some_iff, filter_scoredKeys_serves, head?_mergeSort_iff]

theorem firstAccepting?_scored_none_iff :
    r.firstAccepting? m args false (r.scoredKeys m.traitName types contextName) = none ↔
      ∀ key ∈ r.instanceKeys m.traitName, 0 < scoreKey key types contextName →
        r.Serves m args key = false := by
  rw [firstAccepting?_eq_none_iff, scoredKeys_eq]
  simp

/-- The method under the types themselves counts if the trait has as many parameters. -/
theorem exactCandidate?_eq_some_iff :
    r.exactCandidate? m types args = some found ↔
      r.keyArity m.traitName = some types.length ∧ r.Serves m args ⟨types⟩ = true ∧
        found.key = ⟨types⟩ ∧ found.exact = true ∧
          r.lookup? m.traitName ⟨types⟩ m.method = some found.callee := by
  unfold exactCandidate?
  split
  · rename_i harity
    rw [firstAccepting?_eq, List.findSome?_singleton, offer?_eq_some_iff]
    simp [harity]
  · rename_i harity
    simp [harity]

theorem exactCandidate?_eq_none_iff :
    r.exactCandidate? m types args = none ↔
      ¬ (r.keyArity m.traitName = some types.length ∧ r.Serves m args ⟨types⟩ = true) := by
  unfold exactCandidate?
  split
  · rename_i harity
    rw [firstAccepting?_eq, List.findSome?_singleton, offer?_eq_none_iff]
    simp [harity]
  · rename_i harity
    simp [harity]

theorem argumentCandidate?_of_inexact
    (h : ¬ (r.keyArity m.traitName = some types.length ∧ r.Serves m args ⟨types⟩ = true)) :
    r.argumentCandidate? m types args contextName =
      r.firstAccepting? m args false (r.scoredKeys m.traitName types contextName) := by
  rw [argumentCandidate?_eq, exactCandidate?_eq_none_iff.2 h, Option.none_or]

/-- The same methods, registered in an order that may differ but between instances of one score. -/
structure Reordered (r r' : Registry) (m : ClassMethod) (types : List String)
    (contextName : Option String) : Prop where
  names : r'.AgreeOnNames r
  lookup : ∀ key, r'.lookup? m.traitName key m.method = r.lookup? m.traitName key m.method
  ties : ∀ n, 0 < n →
    (r'.instanceKeys m.traitName).filter (scoreKey · types contextName = n) =
      (r.instanceKeys m.traitName).filter (scoreKey · types contextName = n)

namespace Reordered

theorem serves (h : r.Reordered r' m types contextName) :
    r'.Serves m args = r.Serves m args := by
  funext key
  simp only [Serves, h.lookup, h.names.acceptsArgs]

theorem contenders (h : r.Reordered r' m types contextName) (n : Nat) :
    (r'.contenders m types args contextName).filter (scoreKey · types contextName = n) =
      (r.contenders m types args contextName).filter (scoreKey · types contextName = n) := by
  unfold Registry.contenders
  rw [h.serves]
  rcases Nat.eq_zero_or_pos n with rfl | hn
  · -- all contenders have a positive score
    have hnone (keys : List TypeKey) :
        (keys.filter fun key => 0 < scoreKey key types contextName && r.Serves m args key).filter
          (scoreKey · types contextName = 0) = [] := by
      rw [List.filter_eq_nil_iff]
      intro key hkey
      simp only [List.mem_filter, Bool.and_eq_true, decide_eq_true_eq] at hkey ⊢
      omega
    rw [hnone, hnone]
  · rw [filter_swap, h.ties n hn, filter_swap]

end Reordered

/-- A method under the very types of the arguments is the choice if the trait has as many parameters
and the method takes the arguments. Otherwise it is that of the first best contender: the score is
the greatest, and of those with this score the instance was registered first; there is none exactly
if no instance with a positive score serves. So the order of registration does not count but between
instances of one score, as long as it does not change whether the trait has as many parameters as a
method under the very types needs. -/
theorem dispatch_firstBest (r : Registry) (m : ClassMethod) (types : List String)
    (args : List Value) (contextName : Option String) :
    (∀ callee, r.keyArity m.traitName = some types.length →
      r.lookup? m.traitName ⟨types⟩ m.method = some callee → r.acceptsArgs callee args = true →
        r.argumentCandidate? m types args contextName =
          some { key := ⟨types⟩, callee, exact := true }) ∧
    (¬ (r.keyArity m.traitName = some types.length ∧ r.Serves m args ⟨types⟩ = true) →
      (∀ found, r.argumentCandidate? m types args contextName = some found ↔
        FirstBest (scoreKey · types contextName) (r.contenders m types args contextName) found.key ∧
          found.exact = false ∧ r.lookup? m.traitName found.key m.method = some found.callee) ∧
      (r.argumentCandidate? m types args contextName = none ↔
        ∀ key ∈ r.instanceKeys m.traitName, 0 < scoreKey key types contextName →
          r.Serves m args key = false)) ∧
    ∀ r', r.Reordered r' m types contextName →
      (r.Serves m args ⟨types⟩ = true →
        (r'.keyArity m.traitName = some types.length ↔
          r.keyArity m.traitName = some types.length)) →
      r'.argumentCandidate? m types args contextName =
        r.argumentCandidate? m types args contextName := by
  refine ⟨fun callee harity hlookup haccepts => ?_, fun hinexact => ⟨fun found => ?_, ?_⟩,
    fun r' h harity => ?_⟩
  · have hserves : r.Serves m args ⟨types⟩ = true := serves_iff.2 ⟨callee, hlookup, haccepts⟩
    have hexact : r.exactCandidate? m types args =
        some { key := ⟨types⟩, callee, exact := true } :=
      exactCandidate?_eq_some_iff.2 ⟨harity, hserves, rfl, rfl, hlookup⟩
    rw [argumentCandidate?_eq, hexact, Option.some_or]
  · rw [argumentCandidate?_of_inexact hinexact, firstAccepting?_scored_iff]
  · rw [argumentCandidate?_of_inexact hinexact, firstAccepting?_scored_none_iff]
  · have hexact : r'.exactCandidate? m types args = r.exactCandidate? m types args := by
      apply Option.ext
      intro found
      rw [exactCandidate?_eq_some_iff, exactCandidate?_eq_some_iff, h.serves, h.lookup]
      exact and_congr_left fun hexact => harity hexact.1
    have hscored : r'.firstAccepting? m args false (r'.scoredKeys m.traitName types contextName) =
        r.firstAccepting? m args false (r.scoredKeys m.traitName types contextName) := by
      apply Option.ext
      intro found
      rw [firstAccepting?_scored_iff, firstAccepting?_scored_iff, firstBest_congr h.contenders,
        h.lookup]
    rw [argumentCandidate?_eq, argumentCandidate?_eq, hexact, hscored]

namespace Encoding

def encode : ClassMethod := { traitName := "Encode", method := "encode", arity := 1 }

/-- Encodes an integer. -/
def encoding (name : String) : Value :=
  .builtin
    { id := 0, name, native := .host name
      signature := some (.fn [.con "Int"] (.con "String")), defaults := [] }

/-- An instance for integers. -/
def narrow : TypeKey × MethodTable := (⟨["Int"]⟩, [("encode", encoding "narrow")])

/-- An instance for integers and strings. -/
def wide : TypeKey × MethodTable := (⟨["Int", "String"]⟩, [("encode", encoding "wide")])

/-- An instance that does not match. -/
def stray : TypeKey × MethodTable := (⟨["Bool", "Bool"]⟩, [("encode", encoding "stray")])

def registered (instances : List (TypeKey × MethodTable)) : Registry :=
  { instances := [("Encode", instances)] }

theorem score_narrow : scoreKey narrow.1 ["Int"] (some "String") = 1 := by decide +kernel

theorem score_wide : scoreKey wide.1 ["Int"] (some "String") = 2 := by decide +kernel

/-- Whichever of the two comes first, the methods are the same, and the scores differ. -/
theorem reordered (front : List (TypeKey × MethodTable)) :
    (registered (front ++ [narrow, wide])).Reordered (registered (front ++ [wide, narrow])) encode
      ["Int"] (some "String") where
  names := ⟨fun _ => rfl, fun _ => rfl⟩
  lookup key := by
    have htable (l : List (TypeKey × MethodTable)) : (registered l).table "Encode" = l := rfl
    have hswap : [wide, narrow].lookup key = [narrow, wide].lookup key := by
      by_cases hnarrow : key = narrow.1
      · rw [hnarrow]
        rfl
      · by_cases hwide : key = wide.1
        · rw [hwide]
          rfl
        · rw [List.lookup_eq_none_iff.2 (by simp [hnarrow, hwide]),
            List.lookup_eq_none_iff.2 (by simp [hnarrow, hwide])]
    simp only [lookup?, encode, htable, List.lookup_append, hswap]
  ties n _ := by
    have hkeys (l : List (TypeKey × MethodTable)) :
        (registered l).instanceKeys "Encode" = l.map Prod.fst := rfl
    simp only [encode, hkeys, List.map_append, List.filter_append]
    congr 1
    by_cases hnarrow : n = 1
    · simp [score_narrow, score_wide, hnarrow]
    · simp [List.filter_cons, score_narrow, Ne.symm hnarrow]

end Encoding

open Encoding in
/-- A method for integers alone is the choice if it was registered first. Behind an instance of two
types that does not match, the one for integers and strings has the better score, wherever it is. -/
theorem dispatch_firstBest_encoding :
    (registered [narrow, wide]).argumentCandidate? encode ["Int"] [.int 7] (some "String") =
      some { key := narrow.1, callee := encoding "narrow", exact := true } ∧
    (registered [stray, narrow, wide]).argumentCandidate? encode ["Int"] [.int 7] (some "String") =
      some { key := wide.1, callee := encoding "wide", exact := false } ∧
    (registered [stray, wide, narrow]).argumentCandidate? encode ["Int"] [.int 7] (some "String") =
      (registered [stray, narrow, wide]).argumentCandidate? encode ["Int"] [.int 7]
        (some "String") := by
  have hinexact : ¬ ((registered [stray, narrow, wide]).keyArity "Encode" = some 1 ∧
      (registered [stray, narrow, wide]).Serves encode [.int 7] ⟨["Int"]⟩ = true) := by
    decide +kernel
  have hcontenders : (registered [stray, narrow, wide]).contenders encode ["Int"] [.int 7]
      (some "String") = [narrow.1, wide.1] := by
    decide +kernel
  have hbest : FirstBest (scoreKey · ["Int"] (some "String")) [narrow.1, wide.1] wide.1 :=
    ⟨[narrow.1], [], rfl, by simp [score_narrow, score_wide], by simp⟩
  refine ⟨?_, ?_, ?_⟩
  · exact (dispatch_firstBest _ encode ["Int"] [.int 7] (some "String")).1 _ rfl rfl rfl
  · rw [← hcontenders] at hbest
    exact (((dispatch_firstBest _ encode ["Int"] [.int 7] (some "String")).2.1
      hinexact).1 _).2 ⟨hbest, rfl, rfl⟩
  · exact (dispatch_firstBest _ encode ["Int"] [.int 7] (some "String")).2.2 _
      (reordered [stray]) fun _ => Iff.rfl

open Encoding in
/-- The scores of the two instances differ, and yet it counts which of them was registered first:
there a method under the very types is preferred to a better score, here it is not. -/
theorem dispatch_order_counts :
    (registered [narrow, wide]).Reordered (registered [wide, narrow]) encode ["Int"]
      (some "String") ∧
    (registered [narrow, wide]).argumentCandidate? encode ["Int"] [.int 7] (some "String") =
      some { key := narrow.1, callee := encoding "narrow", exact := true } ∧
    (registered [wide, narrow]).argumentCandidate? encode ["Int"] [.int 7] (some "String") =
      some { key := wide.1, callee := encoding "wide", exact := false } := by
  have hinexact : ¬ ((registered [wide, narrow]).keyArity "Encode" = some 1 ∧
      (registered [wide, narrow]).Serves encode [.int 7] ⟨["Int"]⟩ = true) := by
    decide +kernel
  have hcontenders : (registered [wide, narrow]).contenders encode ["Int"] [.int 7]
      (some "String") = [wide.1, narrow.1] := by
    decide +kernel
  have hbest : FirstBest (scoreKey · ["Int"] (some "String")) [wide.1, narrow.1] wide.1 :=
    ⟨[], [narrow.1], rfl, by simp, by simp [score_narrow, score_wide]⟩
  refine ⟨reordered [], rfl, ?_⟩
  rw [← hcontenders] at hbest
  rw [argumentCandidate?_of_inexact hinexact]
  exact firstAccepting?_scored_iff.2 ⟨hbest, rfl, rfl⟩

end Registry

end TraitLang
