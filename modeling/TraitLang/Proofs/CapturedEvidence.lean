import TraitLang.Proofs.SoundStops

/-!
Evidence that closures capture. The frames in force are merged into one, which knows what the stack
knew. Main statement: a lambda takes the evidence of its creation along; wherever its body runs,
that evidence hides whatever is in force there.
-/
namespace TraitLang

namespace WitnessFrame

theorem get?_merge (outer inner : WitnessFrame) (key : String) :
    (outer.merge inner).get? key = (inner.get? key).or (outer.get? key) := by
  show (Assoc.insertAll inner.entries outer.entries).lookup key = _
  rw [Assoc.lookup_insertAll, Assoc.lookup_reverse inner.nodup]
  rfl

/-- An inner frame overwrites what the frames before it say: the innermost one counts. -/
theorem get?_foldl_merge (frames : List WitnessFrame) (base : WitnessFrame) (key : String) :
    (frames.foldl merge base).get? key =
      (frames.reverse.findSome? fun f => f.get? key).or (base.get? key) := by
  induction frames generalizing base with
  | nil => rfl
  | cons f frames ih =>
    rw [List.foldl_cons, ih, get?_merge, List.reverse_cons, List.findSome?_append, Option.or_assoc]
    simp

theorem isEmpty_iff (f : WitnessFrame) : f.isEmpty = true ↔ ∀ key, f.get? key = none := by
  obtain ⟨entries, hnodup⟩ := f
  cases entries with
  | nil => exact iff_of_true rfl fun _ => rfl
  | cons e entries =>
    refine iff_of_false (by simp [isEmpty]) fun h => ?_
    have hfirst := h e.1
    simp [get?] at hfirst

end WitnessFrame

namespace WitnessStack

variable {V W : WitnessStack}

theorem merged_eq_none_iff : W.merged = none ↔ ∀ key, W.lookup key = none := by
  have hempty : W.toList.all WitnessFrame.isEmpty = true ↔ ∀ key, W.lookup key = none := by
    simp only [List.all_eq_true, WitnessFrame.isEmpty_iff, lookup, List.findSome?_eq_none_iff,
      List.mem_reverse]
    exact ⟨fun h key f hf => h f hf key, fun h f hf key => h key f hf⟩
  rw [← hempty, merged]
  split <;> simp [*]

theorem get?_of_merged {f : WitnessFrame} (h : W.merged = some f) (key : String) :
    f.get? key = W.lookup key := by
  unfold merged at h
  split at h
  · cases h
  · cases h
    rw [WitnessFrame.get?_foldl_merge]
    exact Option.or_none

/-- What was merged knows what the stack knew, also if that is nothing. -/
theorem bind_get?_merged (W : WitnessStack) (key : String) :
    (W.merged.bind fun f => f.get? key) = W.lookup key := by
  cases h : W.merged with
  | none => exact (merged_eq_none_iff.1 h key).symm
  | some f => exact get?_of_merged h key

/-- A frame on top, if there is one, is asked first. -/
theorem lookup_of_toList {t : WitnessStack} {w : Option WitnessFrame}
    (h : t.toList = V.toList ++ w.toList) (key : String) :
    t.lookup key = (w.bind fun f => f.get? key).or (V.lookup key) := by
  rw [lookup, h, List.reverse_append, List.findSome?_append]
  cases w <;> simp [lookup]

end WitnessStack

namespace Closure

variable {c : Closure} {W : WitnessStack} (hcaptured : c.witnesses = W.merged)

include hcaptured

/-- Pushed on any evidence, what was captured is asked before it. -/
theorem lookup_of_pushed {below t : WitnessStack}
    (h : t.toList = below.toList ++ c.witnesses.toList) (key : String) :
    t.lookup key = (W.lookup key).or (below.lookup key) := by
  rw [WitnessStack.lookup_of_toList h, hcaptured, WitnessStack.bind_get?_merged]

theorem lookup_of_pushWitness (s : Setting) (m : Machine) : ∃ t,
    Run.pushWitness c.witnesses s m = .done () t ∧
      ∀ key, t.witnesses.lookup key = (W.lookup key).or (m.witnesses.lookup key) := by
  obtain ⟨t, hpush, -, htop⟩ := Run.pushWitness_eq c.witnesses s m
  exact ⟨t, hpush, lookup_of_pushed hcaptured htop⟩

/-- Where the body runs, the evidence of the creation is in force, and above it at most what the
declared result tells. -/
theorem Opened.captured {scope : ScopeId} {m : Machine} (h : c.Opened scope m) :
    ∃ (below : WitnessStack) (t : Machine), t.store = m.store ∧
      t.witnesses.toList = below.toList ++ c.witnesses.toList ∧
      m.witnesses.toList = t.witnesses.toList ++ (t.returnWitness c scope).toList ∧
      ∀ key ty, W.lookup key = some ty → t.witnesses.lookup key = some ty ∧
        m.witnesses.lookup key =
          some (((t.returnWitness c scope).bind fun f => f.get? key).getD ty) := by
  obtain ⟨below, t, hstore, hpushed, htop⟩ := h.evidence
  refine ⟨below, t, hstore, hpushed, htop, fun key ty hknown => ?_⟩
  have ht : t.witnesses.lookup key = some ty := by
    rw [lookup_of_pushed hcaptured hpushed, hknown]
    rfl
  refine ⟨ht, ?_⟩
  rw [WitnessStack.lookup_of_toList htop, ht]
  cases (t.returnWitness c scope).bind fun f => f.get? key <;> rfl

end Closure

/-- Evidence is captured faithfully. The frames of a stack are merged into none exactly if the stack
knows no key, and otherwise into one that knows what the stack knows. A lambda is made with the
evidence in force; pushed on any other, it is asked first. Whatever is run later, in any setting and
on any machine: where the body is about to run, each key that was known has the type that it had,
unless the declared result gives it another one on top. -/
theorem captured_evidence_faithful :
    (∀ W : WitnessStack, (W.merged = none ↔ ∀ key, W.lookup key = none) ∧
      ∀ f, W.merged = some f → ∀ key, f.get? key = W.lookup key) ∧
    ∀ a ctx scope f span s m,
      let c : Closure := { func := f, scope, witnesses := m.witnesses.merged }
      evalNode a ctx scope ⟨.lambda f, span⟩ s m =
        .done (.done (.function m.nextIdent c)) { m with nextIdent := m.nextIdent + 1 } ∧
      (∀ s' m', ∃ t, Run.pushWitness c.witnesses s' m' = .done () t ∧
        ∀ key, t.witnesses.lookup key = (m.witnesses.lookup key).or (m'.witnesses.lookup key)) ∧
      ∀ (op : Interpreter.Operation) s' m' scope' stop,
        op.code s' m' = .halted (.breakpoint (.body c scope') stop) →
          ∃ (below : WitnessStack) (t : Machine), t.store = stop.store ∧
            t.witnesses.toList = below.toList ++ c.witnesses.toList ∧
            stop.witnesses.toList = t.witnesses.toList ++ (t.returnWitness c scope').toList ∧
            ∀ key ty, m.witnesses.lookup key = some ty → t.witnesses.lookup key = some ty ∧
              stop.witnesses.lookup key =
                some (((t.returnWitness c scope').bind fun f => f.get? key).getD ty) := by
  refine ⟨fun W => ⟨WitnessStack.merged_eq_none_iff, fun f => WitnessStack.get?_of_merged⟩, ?_⟩
  intro a ctx scope f span s m c
  have hcaptured : c.witnesses = m.witnesses.merged := rfl
  refine ⟨rfl, Closure.lookup_of_pushWitness hcaptured, fun op s' m' scope' stop h => ?_⟩
  have hopened : c.Opened scope' stop := Interpreter.Operation.sound_of_code_eq h
  exact hopened.captured hcaptured

/-- A function body is about to run. -/
def Event.isBody : Event → Bool
  | body _ _ => true
  | _ => false

/-- The lambda `x -> x`. -/
def identity : Func where
  name := "<lambda>"
  params := [{ name := "x", ty := none, default := none, variadic := false }]
  retTy := none
  constraints := []
  witnessParams := []
  body := ⟨.var "x", {}⟩
  span := {}

/-- Made where an inner frame hides a type, and applied where the caller has yet another one. -/
theorem captured_evidence_faithful_identity :
    let outer := (WitnessFrame.single "a" (.con "Int")).insert "Monoid" (.con "List")
    let inner := WitnessFrame.single "a" (.con "Bool")
    let m : Machine := { witnesses := ((({} : WitnessStack).push outer).push inner).push {} }
    let c : Closure := { func := identity, scope := Store.global, witnesses := m.witnesses.merged }
    let caller : Machine :=
      { witnesses := ({} : WitnessStack).push (.single "a" (.con "String")), nextIdent := 1 }
    m.witnesses.merged = some (outer.insert "a" (.con "Bool")) ∧
      (outer.insert "a" (.con "Bool")).get? "a" = m.witnesses.lookup "a" ∧
      ∃ scope stop, (Interpreter.Operation.apply 2 (.function 0 c) [.unit] { name := "f" }).code
          { breakpoint := fun e _ => e.isBody } caller =
            .halted (.breakpoint (.body c scope) stop) ∧
        ∃ t : Machine, t.store = stop.store ∧ t.witnesses.lookup "a" = some (.con "Bool") ∧
          t.witnesses.lookup "Monoid" = some (.con "List") := by
  intro outer inner m c caller
  have hmerged : m.witnesses.merged = some (outer.insert "a" (.con "Bool")) := by decide +kernel
  obtain ⟨hstack, hlambda⟩ := captured_evidence_faithful
  obtain ⟨-, -, hruns⟩ := hlambda (apply 0) {} Store.global identity {} {} m
  refine ⟨hmerged, (hstack m.witnesses).2 _ hmerged "a", _, _, rfl, ?_⟩
  obtain ⟨below, t, hstore, -, -, hknown⟩ := hruns
    (.apply 2 (.function 0 c) [.unit] { name := "f" }) { breakpoint := fun e _ => e.isBody } caller
    _ _ rfl
  have ha : m.witnesses.lookup "a" = some (.con "Bool") := by decide +kernel
  have hmonoid : m.witnesses.lookup "Monoid" = some (.con "List") := by decide +kernel
  exact ⟨t, hstore, (hknown "a" _ ha).1, (hknown "Monoid" _ hmonoid).1⟩

end TraitLang
