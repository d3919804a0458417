import TraitLang.Proofs.Effects

/-!
Inside a call one more call is in progress, and at most three frames of evidence lie on top. The
loop of a trampoline starts each of its callees on the evidence that the loop found: a tail call
takes over the frame of its caller and leaves nothing of it behind. Main statement: applying a
callable gives the stacks back.
-/
namespace TraitLang

/-- Machine `m'` is inside a call that was entered on machine `m`: one more call is in progress,
whose frame is `call`, and `frames` lie on top of the evidence. -/
structure Inside (W : Powers) (n : Nat) (m : Machine) (call : CallFrame)
    (frames : List WitnessFrame) (m' : Machine) : Prop where
  effect : Effect W n m (m'.onStacksOf m)
  calls : m'.calls = m.calls.push call
  witnesses : m'.witnesses.toList = m.witnesses.toList ++ frames
  typeContext : m'.typeContext = m.typeContext
  containers : m'.containers = m.containers

namespace Inside

variable {W : Powers} {n : Nat} {m m₁ m₂ : Machine} {call : CallFrame} {frames : List WitnessFrame}

theorem size_le (h : Inside W n m call frames m₁) : m.store.scopes.size ≤ m₁.store.scopes.size :=
  h.effect.size_le

/-- What a run does inside a call keeps it inside. -/
theorem after (h : Inside W n m call frames m₁) (he : Effect W n m₁ m₂) :
    Inside W n m call frames m₂ where
  effect := h.effect.trans (he.onStacksOf m)
  calls := he.sameStacks.calls ▸ h.calls
  witnesses := he.sameStacks.witnesses ▸ h.witnesses
  typeContext := he.sameStacks.typeContext.trans h.typeContext
  containers := he.sameStacks.containers.trans h.containers

theorem push (h : Inside W n m call frames m₁) (frame : WitnessFrame) :
    Inside W n m call (frames ++ [frame]) { m₁ with witnesses := m₁.witnesses.push frame } where
  effect := h.effect
  calls := h.calls
  witnesses := by simp [h.witnesses]
  typeContext := h.typeContext
  containers := h.containers

theorem cut_witnesses (h : Inside W n m call frames m₁) :
    m₁.witnesses.cut m.witnesses.depth = m.witnesses :=
  Stack.cut_eq_of_toList_append h.witnesses

theorem cut_calls (h : Inside W n m call frames m₁) : m₁.calls.cut m.calls.depth = m.calls := by
  rw [h.calls, Stack.cut_push]

/-- The evidence is cut back to the mark of the call. -/
theorem cut (h : Inside W n m call frames m₁) :
    Inside W n m call [] { m₁ with witnesses := m₁.witnesses.cut m.witnesses.depth } where
  effect := h.effect
  calls := h.calls
  witnesses := by rw [h.cut_witnesses, List.append_nil]
  typeContext := h.typeContext
  containers := h.containers

/-- A tail call takes over the frame. -/
theorem replaceTop (h : Inside W n m call frames m₁) (frame : CallFrame) :
    Inside W n m frame frames { m₁ with calls := m₁.calls.replaceTop frame } where
  effect := h.effect
  calls := by rw [h.calls, Stack.replaceTop_push]
  witnesses := h.witnesses
  typeContext := h.typeContext
  containers := h.containers

theorem witnesses_eq (h : Inside W n m call [] m₁) : m₁.witnesses = m.witnesses := by
  ext1
  rw [h.witnesses, List.append_nil]

/-- Entering a call. -/
theorem enter (m : Machine) (call : CallFrame) :
    Inside W n m call [] { m with calls := m.calls.push call } where
  effect := .refl m
  calls := rfl
  witnesses := (List.append_nil _).symm
  typeContext := rfl
  containers := rfl

/-- Leaving the call gives the stacks back. -/
theorem leave (h : Inside W n m call [] m₁) :
    Effect W n m { m₁ with calls := m₁.calls.cut m.calls.depth } := by
  have he := h.effect
  rw [Machine.onStacksOf, ← h.witnesses_eq, ← h.typeContext, ← h.containers] at he
  rw [h.cut_calls]
  exact he

end Inside

/-- Inside a call, with at most three frames of evidence on top. -/
def Within (W : Powers) (n : Nat) (m m' : Machine) : Prop :=
  ∃ call frames, frames.length ≤ 3 ∧ Inside W n m call frames m'

/-- A call can be entered on machine `m`, where `B` holds of the calls and the evidence. -/
structure Entry (B : Setting → Stack CallFrame → WitnessStack → Prop) (s : Setting) (n : Nat)
    (m : Machine) : Prop where
  size_le : n ≤ m.store.scopes.size
  holds : B s m.calls m.witnesses
  depth_lt : m.calls.depth < s.limits.maxCallDepth

/-- What holds where a call is entered holds inside of it. -/
def Carries (W : Powers) (B : Setting → Stack CallFrame → WitnessStack → Prop) : Prop :=
  ∀ {s : Setting} {n : Nat} {m m' : Machine}, Entry B s n m → Within W n m m' →
    B s m'.calls m'.witnesses

namespace Run

variable {α β : Type} {W : Powers} {B : Setting → Stack CallFrame → WitnessStack → Prop} {a : Apply}
  {s : Setting} {n : Nat} {m m₁ : Machine} {call : CallFrame} {frames : List WitnessFrame}

/-- A computation that restores the stacks stays where it is inside a call. -/
theorem Restores.inside {x : Run α} (hx : ∀ k, x.Restores W B k) (hcarry : Carries W B)
    (he : Entry B s n m) (hlen : frames.length ≤ 3) (h : Inside W n m call frames m₁) :
    (x s m₁).Ends (fun _ => Inside W n m call frames) (Inside W n m call frames)
      fun m₂ => B s m₂.calls m₂.witnesses :=
  Outcome.Ends.imp
    (hx n s m₁ n (Nat.le_refl n) (Nat.le_trans he.size_le h.size_le) (hcarry he ⟨_, _, hlen, h⟩))
    (fun _ _ => h.after) (fun _ => h.after) fun _ h₂ => h₂

theorem pushWitness_inside {H : Machine → Prop} (w : Option WitnessFrame)
    (h : Inside W n m call frames m₁) :
    (pushWitness w s m₁).Ends
      (fun _ m₂ => Inside W n m call (frames ++ w.toList) m₂ ∧ m₂.store = m₁.store)
      (fun _ => False) H := by
  cases w with
  | none =>
    show Inside W n m call (frames ++ []) m₁ ∧ m₁.store = m₁.store
    rw [List.append_nil]
    exact ⟨h, rfl⟩
  | some frame => exact ⟨h.push frame, rfl⟩

/-- The evidence for a body: what dispatch found, what the closure captured, and what its declared
result tells on machine `t`. -/
def bodyFrames (p : Pending) (c : Closure) (scope : ScopeId) (t : Machine) : List WitnessFrame :=
  p.witness.toList ++ c.witnesses.toList ++ (t.returnWitness c scope).toList

theorem length_bodyFrames_le (p : Pending) (c : Closure) (scope : ScopeId) (t : Machine) :
    (bodyFrames p c scope t).length ≤ 3 := by
  have h₁ : p.witness.toList.length ≤ 1 := Option.length_toList_le
  have h₂ : c.witnesses.toList.length ≤ 1 := Option.length_toList_le
  have h₃ : (t.returnWitness c scope).toList.length ≤ 1 := Option.length_toList_le
  simp only [bodyFrames, List.length_append]
  omega

/-- Where a body runs once it was opened. What its declared result tells is worked out when the
other evidence is in force. -/
def Opened (W : Powers) (n : Nat) (m : Machine) (call : CallFrame) (p : Pending) (c : Closure) :
    Binding → Machine → Prop
  | .short _, m₂ => Within W n m m₂
  | .ready scope, m₂ => ∃ t, Inside W n m call (p.witness.toList ++ c.witnesses.toList) t ∧
      Inside W n m call (bodyFrames p c scope t) m₂ ∧ m₂.store = t.store

theorem openBody_inside (ha : Restores.Always W B a) (hcarry : Carries W B) (he : Entry B s n m)
    (id : Ident) (c : Closure) (p : Pending) (site : CallSite) (h : Inside W n m call [] m₁) :
    (openBody a id c p site s m₁).Ends (Opened W n m call p c) (Within W n m)
      fun m₂ => B s m₂.calls m₂.witnesses := by
  have hlen : p.witness.toList.length ≤ 3 :=
    Nat.le_trans Option.length_toList_le (by decide)
  refine Ends.bind (pushWitness_inside p.witness h) (fun _ m₂ h₂ => ?_) fun _ => False.elim
  refine Ends.bind
    (Restores.inside (fun _ => .bindArguments ha id c p.args site) hcarry he hlen h₂.1)
    (fun b m₃ h₃ => ?_) fun _ h₃ => ⟨_, _, hlen, h₃⟩
  cases b with
  | short v => exact ⟨_, _, hlen, h₃⟩
  | ready scope =>
    dsimp only
    rw [pushEvidence, bind_assoc]
    refine Ends.bind (pushWitness_inside c.witnesses h₃) (fun _ m₄ h₄ => ?_) fun _ => False.elim
    rw [bind_assoc, machine_bind]
    refine Ends.bind (pushWitness_inside (m₄.returnWitness c scope) h₄.1)
      (fun _ m₅ h₅ => ?_) fun _ => False.elim
    exact ⟨m₄, h₄.1, h₅⟩

/-- Where a loop stands after a step: about to make the next call, which has taken over the frame,
on the evidence that the loop found, or at its end. -/
def Looped (W : Powers) (n : Nat) (m : Machine) : LoopState ⊕ Value → Machine → Prop
  | .inl st, m₂ => Inside W n m (m₂.frame st.site) [] m₂
  | .inr _, m₂ => Within W n m m₂

theorem handOver_inside (hcarry : Carries W B) (he : Entry B s n m) (fuel : Nat) (step : Step)
    (h : Within W n m m₁) :
    (handOver fuel m.witnesses.depth step s m₁).Ends (Looped W n m) (Within W n m)
      fun m₂ => B s m₂.calls m₂.witnesses := by
  cases step with
  | done v => exact h
  | tail callee args site =>
    obtain ⟨_, _, hlen, h⟩ := h
    refine Ends.bind
      (Ends.mapFault _
        (Restores.inside (fun _ => .reduce fuel callee args site) hcarry he hlen h))
      (fun r m₂ h₂ => ?_) fun _ h₂ => ⟨_, _, hlen, h₂⟩
    cases r with
    | short v => exact ⟨_, _, hlen, h₂⟩
    | call next => exact h₂.cut.replaceTop _

theorem runFunction_inside (ha : Restores.Always W B a) (hcarry : Carries W B) (he : Entry B s n m)
    (fuel : Nat) (id : Ident) (c : Closure) (st : LoopState) (h : Inside W n m call [] m₁) :
    (runFunction a fuel m.witnesses.depth id c st s m₁).Ends (Looped W n m) (Within W n m)
      fun m₂ => B s m₂.calls m₂.witnesses := by
  refine Ends.bind
    (Ends.mapFault _ (openBody_inside ha hcarry he id c st.toPending st.site h))
    (fun b m₂ h₂ => ?_) fun _ h₂ => h₂
  cases b with
  | short v => exact h₂
  | ready scope =>
    obtain ⟨t, -, h₂, -⟩ := h₂
    have hlen := length_bodyFrames_le st.toPending c scope t
    refine Ends.bind (Restores.inside (fun _ => .reach _) hcarry he hlen h₂) (fun _ m₃ h₃ => ?_)
      fun _ h₃ => ⟨_, _, hlen, h₃⟩
    refine Ends.bind
      (Ends.mapFault _
        (Restores.inside (fun k => .node ha _ scope c.func.body k) hcarry he hlen h₃))
      (fun step m₄ h₄ => ?_) fun _ h₄ => ⟨_, _, hlen, h₄⟩
    exact handOver_inside hcarry he fuel step ⟨_, _, hlen, h₄⟩

theorem runOther_inside (hB : Confines B W) (ha : Restores.Always W B a) (hcarry : Carries W B)
    (he : Entry B s n m) (st : LoopState) (h : Inside W n m call [] m₁) :
    (runOther a st s m₁).Ends (fun _ => Within W n m) (Within W n m)
      fun m₂ => B s m₂.calls m₂.witnesses := by
  have hlen : st.witness.toList.length ≤ 3 :=
    Nat.le_trans Option.length_toList_le (by decide)
  refine Ends.bind (pushWitness_inside st.witness h) (fun _ m₂ h₂ => ?_) fun _ => False.elim
  exact Outcome.Ends.imp
    (Ends.mapFault _
      (Restores.inside (fun _ => .applyNative hB ha st.callee st.args st.site) hcarry he hlen h₂.1))
    (fun _ _ h₃ => ⟨_, _, hlen, h₃⟩) (fun _ h₃ => ⟨_, _, hlen, h₃⟩) fun _ h₃ => h₃

/-- One round of a loop: the next callee finds the evidence of the call, nothing of its
predecessor. -/
theorem loopStep_inside (hB : Confines B W) (ha : Restores.Always W B a) (hcarry : Carries W B)
    (he : Entry B s n m) (fuel : Nat) (st : LoopState) (h : Inside W n m call [] m₁) :
    (loopStep a fuel m.witnesses.depth st s m₁).Ends (Looped W n m) (Within W n m)
      fun m₂ => B s m₂.calls m₂.witnesses := by
  have other : ((do return .inr (← runOther a st) : Run (LoopState ⊕ Value)) s m₁).Ends
      (Looped W n m) (Within W n m) fun m₂ => B s m₂.calls m₂.witnesses :=
    Ends.bind (runOther_inside hB ha hcarry he st h) (fun _ _ h₂ => h₂) fun _ h₂ => h₂
  unfold loopStep
  cases st.callee with
  | function id c => exact runFunction_inside ha hcarry he fuel id c st h
  | _ => exact other

theorem loop_inside (hB : Confines B W) (ha : Restores.Always W B a) (hcarry : Carries W B)
    (he : Entry B s n m) (fuel rounds : Nat) (st : LoopState) (h : Inside W n m call [] m₁) :
    (iterate (loopStep a fuel m.witnesses.depth) rounds st s m₁).Ends (fun _ => Within W n m)
      (Within W n m) fun m₂ => B s m₂.calls m₂.witnesses := by
  induction rounds generalizing st m₁ call with
  | zero => trivial
  | succ rounds ih =>
    rw [iterate_succ]
    refine Ends.bind (loopStep_inside hB ha hcarry he fuel st h) (fun r m₂ h₂ => ?_) fun _ h₂ => h₂
    cases r with
    | inl next => exact ih next h₂
    | inr v => exact h₂

/-- The evidence that a loop leaves is dropped. -/
theorem trampoline_inside (hB : Confines B W) (ha : Restores.Always W B a) (hcarry : Carries W B)
    (he : Entry B s n m) (fuel : Nat) (callee : Value) (args : List Value) (site : CallSite)
    (h : Inside W n m call [] m₁) :
    (trampoline a fuel callee args site s m₁).Ends (fun _ m₂ => ∃ call, Inside W n m call [] m₂)
      (fun m₂ => ∃ call, Inside W n m call [] m₂) fun m₂ => B s m₂.calls m₂.witnesses := by
  have hlen : ([] : List WitnessFrame).length ≤ 3 := by decide
  have hbase : m₁.witnesses.depth = m.witnesses.depth := by rw [h.witnesses_eq]
  unfold trampoline keepingWitnesses
  rw [hbase]
  have tidy (m₂ : Machine) (h₂ : Within W n m m₂) :
      ∃ call, Inside W n m call [] { m₂ with witnesses := m₂.witnesses.cut m.witnesses.depth } := by
    obtain ⟨call, frames, -, h₂⟩ := h₂
    exact ⟨call, h₂.cut⟩
  refine Ends.ensuring ?_ (fun _ => tidy) tidy
  rw [machine_bind, hbase]
  refine Ends.bind (Restores.inside (fun _ => .reduce fuel callee args site) hcarry he hlen h)
    (fun r m₂ h₂ => ?_) fun _ h₂ => ⟨_, _, hlen, h₂⟩
  cases r with
  | short v => exact ⟨_, _, hlen, h₂⟩
  | call p => exact loop_inside hB ha hcarry he fuel fuel _ h₂

namespace Restores

theorem overflow {k : ScopeId} (site : CallSite) : (overflow site).Restores W B k :=
  bind (reach _) fun _ => bind setting fun _ => bind machine fun _ => throw _

/-- A call gives the stacks back if all calls below it do. -/
theorem applyWith (hB : Confines B W) (ha : Always W B a) (hcarry : Carries W B) (fuel : Nat) :
    Always W B (applyWith a fuel) := by
  intro callee args site k s m n hn hm hBs
  unfold Run.applyWith Run.asCall
  split
  · exact overflow site s m n hn hm hBs
  · rename_i hdepth
    have he : Entry B s n m := ⟨hm, hBs, Nat.lt_of_not_le hdepth⟩
    exact Ends.withCall
      (trampoline_inside hB ha hcarry he fuel callee args site (Inside.enter m _))
      (fun _ _ ⟨_, h⟩ => h.leave) fun _ ⟨_, h⟩ => h.leave

theorem apply (hB : Confines B W) (hcarry : Carries W B) (fuel : Nat) :
    Always W B (apply fuel) := by
  induction fuel with
  | zero => exact fun _ _ _ _ => outOfFuel
  | succ fuel ih => exact applyWith hB ih hcarry fuel

end Restores

end Run

end TraitLang
