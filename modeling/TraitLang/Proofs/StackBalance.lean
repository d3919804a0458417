import TraitLang.Proofs.Calls

/-!
The stacks are balanced: calls, evidence, expected types and container types are the same after a
run as before it, whether it ends with a value or with a fault. So they are empty whenever an
interpreter is at rest.
-/
namespace TraitLang

/-- A property of all that an interpreter runs: evaluation in any mode, applications, calls by name,
evaluation to a value and loading. -/
structure Throughout (fuel : Nat) (P : ∀ {α : Type}, Run α → Prop) : Prop where
  node : ∀ ctx scope e, P (evalNode (apply fuel) ctx scope e)
  apply : ∀ callee args site, P (apply fuel callee args site)
  call : ∀ name args, P (Run.callGlobal (TraitLang.apply fuel) name args)
  value : ∀ ctx scope e, P (evalValue (TraitLang.apply fuel) ctx scope e)
  loading : ∀ p, P (Run.loading (TraitLang.apply fuel) p)

theorem Throughout.imp {fuel : Nat} {P Q : ∀ {α : Type}, Run α → Prop} (h : Throughout fuel P)
    (hPQ : ∀ {α : Type} {x : Run α}, P x → Q x) : Throughout fuel Q where
  node ctx scope e := hPQ (h.node ctx scope e)
  apply callee args site := hPQ (h.apply callee args site)
  call name args := hPQ (h.call name args)
  value ctx scope e := hPQ (h.value ctx scope e)
  loading p := hPQ (h.loading p)

namespace Run

variable {α β : Type} {W : Powers} {B : Setting → Stack CallFrame → WitnessStack → Prop}

/-- However the computation returns, the four stacks hold what they held; where a debugger stops it,
`B` holds if it held before. -/
structure Tidy (B : Setting → Stack CallFrame → WitnessStack → Prop) (x : Run α) : Prop where
  ends : ∀ s m, B s m.calls m.witnesses →
    (x s m).Ends (fun _ m' => m'.SameStacks m) (fun m' => m'.SameStacks m)
      fun m' => B s m'.calls m'.witnesses

namespace Tidy

theorem of_restores {x : Run α} (hx : x.Restores W B 0) : x.Tidy B :=
  ⟨fun s m hB => Outcome.Ends.imp (hx s m 0 (Nat.le_refl 0) (Nat.zero_le _) hB)
    (fun _ _ h => h.sameStacks) (fun _ h => h.sameStacks) fun _ h => h⟩

theorem pure (a : α) : (pure a : Run α).Tidy B := ⟨fun _ _ _ => .refl _⟩

theorem bind {x : Run α} {f : α → Run β} (hx : x.Tidy B) (hf : ∀ a, (f a).Tidy B) :
    (x >>= f).Tidy B :=
  ⟨fun s m hB => Ends.bind (hx.ends s m hB)
    (fun a m₁ h => Outcome.Ends.imp ((hf a).ends s m₁ (by rwa [h.calls, h.witnesses]))
      (fun _ _ h' => h'.trans h) (fun _ h' => h'.trans h) fun _ h' => h')
    fun _ h => h⟩

theorem modify {f : Machine → Machine} (hf : ∀ m, (f m).SameStacks m) : (modify f).Tidy B :=
  ⟨fun _ m _ => hf m⟩

theorem forM {f : α → Run Unit} (hf : ∀ a, (f a).Tidy B) (as : List α) :
    (as.forM f).Tidy B := by
  induction as with
  | nil => exact pure ()
  | cons a as ih => exact bind (hf a) fun _ => ih

theorem newBuiltin (name : String) (native : Native) (signature : Option Ty)
    (defaults : List Value) :
    (Interpreter.newBuiltin name native signature defaults).Tidy B :=
  bind (of_restores (W := .all) .fresh) fun _ => pure _

theorem define (scope : ScopeId) (name : String) (v : Value) : (define scope name v).Tidy B :=
  modify fun _ => ⟨rfl, rfl, rfl, rfl⟩

theorem addBuiltin (name : String) (native : Native) (signature : Option Ty)
    (defaults : List Value) : (Interpreter.addBuiltin name native signature defaults).Tidy B :=
  bind (newBuiltin _ _ _ _) fun v => define _ name v

theorem output (f : Machine → String) :
    (Run.modify fun m => { m with output := f m }).Tidy B :=
  modify fun _ => ⟨rfl, rfl, rfl, rfl⟩

theorem register (r : Registration) : (register r).Tidy B := by
  cases r <;> exact modify fun _ => ⟨rfl, rfl, rfl, rfl⟩

theorem registerCore : Interpreter.registerCore.Tidy B :=
  bind (forM (fun (_, _, _, _) => addBuiltin _ _ _ _) _) fun _ =>
    forM (fun (_, _, _, _) => bind (newBuiltin _ _ _ _) fun _ => register _) _

theorem throughout (hB : Confines B .all) (hcarry : Carries .all B) (fuel : Nat) :
    Throughout fuel (Tidy B) := by
  have always := Restores.apply hB hcarry fuel
  exact
    { node := fun ctx scope e => of_restores (.node always ctx scope e 0)
      apply := fun callee args site => of_restores (always callee args site 0)
      call := fun name args => of_restores (.callGlobal always name args)
      value := fun ctx scope e => of_restores (.evalValue always ctx scope e)
      loading := fun p => of_restores (.loading always trivial p) }

end Tidy

/-- However the computation returns, the four stacks hold what they held. -/
structure Balanced (x : Run α) : Prop where
  ends : ∀ s m, (x s m).Ends (fun _ m' => m'.SameStacks m) (fun m' => m'.SameStacks m) fun _ => True

theorem Tidy.balanced {x : Run α} (hx : x.Tidy fun _ _ _ => True) : x.Balanced :=
  ⟨fun s m => hx.ends s m trivial⟩

theorem Balanced.throughout (fuel : Nat) : Throughout fuel Balanced :=
  (Tidy.throughout (fun _ => Host.within_all _) (fun _ _ => trivial) fuel).imp Tidy.balanced

end Run

namespace Interpreter

/-- What an embedding program can do with an interpreter. -/
inductive Operation where
  | load (fuel : Nat) (p : AnalyzedProgram)
  | run (fuel : Nat)
  | call (fuel : Nat) (name : String) (args : List Value)
  | eval (fuel : Nat) (e : Spanned Expr)
  | apply (fuel : Nat) (callee : Value) (args : List Value) (site : CallSite)
  | resolve (m : ClassMethod) (args : List Value) (site : CallSite)
  | defineGlobal (name : String) (v : Value)
  | addBuiltin (name : String) (native : Native) (signature : Option Ty) (defaults : List Value)
  | addTraitDefault (traitName method : String) (v : Value)
  | addInstanceMethod (traitName : String) (types : List Ty) (method : String) (v : Value)
  | takeOutput
  /-- other natives, another bridge or another last resort -/
  | setHost (host : Host)

def Operation.perform (i : Interpreter) : Operation → Interpreter
  | load fuel p => (i.load fuel p).2
  | run fuel => (i.run fuel).2
  | call fuel name args => (i.call fuel name args).2
  | eval fuel e => (i.eval fuel e).2
  | apply fuel callee args site => (i.apply fuel callee args site).2
  | resolve m args site => (i.resolve m args site).2
  | defineGlobal name v => i.defineGlobal name v
  | addBuiltin name native signature defaults =>
    i.update (Interpreter.addBuiltin name native signature defaults)
  | addTraitDefault traitName method v => i.update (Interpreter.addTraitDefault traitName method v)
  | addInstanceMethod traitName types method v => i.addInstanceMethod traitName types method v
  | takeOutput => i.takeOutput.2
  | setHost host =>
    { setting := { i.setting with host }
      machine := { i.machine with bridge := none, fallback := none } }

theorem exec_sameStacks {α : Type} {x : Run α} (hx : x.Balanced) (i : Interpreter) :
    (i.exec x).2.machine.SameStacks i.machine := by
  have h := hx.ends i.setting i.machine
  unfold exec
  cases hxm : x i.setting i.machine with
  | done a m => rw [hxm] at h; exact h
  | failed f m => rw [hxm] at h; exact h
  | halted why => exact .refl _

theorem perform_sameStacks (i : Interpreter) (op : Operation) :
    (op.perform i).machine.SameStacks i.machine := by
  cases op with
  | load fuel p => exact exec_sameStacks ((Run.Balanced.throughout fuel).loading p) _
  | run fuel | call fuel name args =>
    exact exec_sameStacks ((Run.Balanced.throughout fuel).call _ _) i
  | eval fuel e => exact exec_sameStacks ((Run.Balanced.throughout fuel).value _ _ e) i
  | apply fuel callee args site =>
    exact exec_sameStacks ((Run.Balanced.throughout fuel).apply callee args site) i
  | resolve m args site =>
    exact exec_sameStacks (Run.Tidy.of_restores (W := .all) (.resolve m args site)).balanced i
  | defineGlobal name v => exact exec_sameStacks (Run.Tidy.define _ name v).balanced i
  | addBuiltin name native signature defaults =>
    exact exec_sameStacks (Run.Tidy.addBuiltin name native signature defaults).balanced i
  | addTraitDefault traitName method v => exact exec_sameStacks (Run.Tidy.register _).balanced i
  | addInstanceMethod traitName types method v =>
    exact exec_sameStacks (Run.Tidy.register _).balanced i
  | takeOutput => exact exec_sameStacks (Run.Tidy.output fun _ => "").balanced i
  | setHost host => exact ⟨rfl, rfl, rfl, rfl⟩

theorem foldl_perform_sameStacks (ops : List Operation) (i : Interpreter) :
    (ops.foldl Operation.perform i).machine.SameStacks i.machine := by
  induction ops generalizing i with
  | nil => exact .refl _
  | cons op ops ih => exact (ih (op.perform i)).trans (perform_sameStacks i op)

/-- A new interpreter has empty stacks. -/
theorem create_sameStacks (limits : Limits) (host : Host) :
    (create limits host).machine.SameStacks {} := by
  rw [create, update]
  exact exec_sameStacks Run.Tidy.registerCore.balanced _

/-- Evaluating in any mode, applying, calling, evaluating at top level and loading leave the four
stacks as they were, whether they end with a value or with a fault; so after any operations on a
new interpreter the stacks are empty. -/
theorem stacks_balanced :
    (∀ fuel, Throughout fuel Run.Balanced) ∧
    ∀ limits host (ops : List Operation),
      (ops.foldl Operation.perform (create limits host)).machine.SameStacks {} := by
  refine ⟨Run.Balanced.throughout, fun limits host ops => ?_⟩
  exact (foldl_perform_sameStacks ops _).trans (create_sameStacks limits host)

end Interpreter

end TraitLang
