import TraitLang.Proofs.StackBalance

/-!
Bounds on the stacks while a program runs. Wherever a debugger stops a run that began on empty
stacks, calls in progress are within their limit and each of them has brought in at most three
frames of evidence, however many tail calls were made. In each round of a trampoline the body of the
current callee runs on the stacks that the trampoline found, with its own frame and its own evidence
on top.
-/
namespace TraitLang

/-- There are not too many calls in progress, and at most three frames of evidence for each. -/
def WithinLimits (s : Setting) (calls : Stack CallFrame) (witnesses : WitnessStack) : Prop :=
  calls.depth ≤ s.limits.maxCallDepth ∧ witnesses.depth ≤ 3 * calls.depth

theorem Inside.depth_calls {W : Powers} {n : Nat} {m m' : Machine}
    {call : CallFrame} {frames : List WitnessFrame} (h : Inside W n m call frames m') :
    m'.calls.depth = m.calls.depth + 1 := by
  rw [h.calls, Stack.depth_push]

theorem Inside.depth_witnesses {W : Powers} {n : Nat} {m m' : Machine}
    {call : CallFrame} {frames : List WitnessFrame} (h : Inside W n m call frames m') :
    m'.witnesses.depth = m.witnesses.depth + frames.length := by
  rw [← Stack.length_toList, h.witnesses, List.length_append, Stack.length_toList]

theorem WithinLimits.carries : Carries .all WithinLimits := by
  rintro s n m m' he ⟨call, frames, hlen, h⟩
  have hdepth := he.depth_lt
  have hwitnesses := he.holds.2
  rw [WithinLimits, h.depth_calls, h.depth_witnesses]
  omega

namespace Run

/-- Wherever a debugger stops the computation after it started on no calls and no evidence, the
stacks are within their limits. -/
structure Bounded {α : Type} (x : Run α) : Prop where
  withinLimits : ∀ s m e m', m.calls.depth = 0 → m.witnesses.depth = 0 →
    x s m = .halted (.breakpoint e m') → WithinLimits s m'.calls m'.witnesses

theorem Tidy.bounded {α : Type} {x : Run α} (hx : x.Tidy WithinLimits) : x.Bounded := by
  refine ⟨fun s m e m' hcalls hwitnesses hx' => ?_⟩
  have hstart : WithinLimits s m.calls m.witnesses := by
    rw [WithinLimits, hcalls, hwitnesses]
    exact ⟨Nat.zero_le _, Nat.zero_le _⟩
  have h := hx.ends s m hstart
  rw [hx'] at h
  exact h

/-- The states that a loop goes through. -/
inductive Reaches {σ α : Type} (step : σ → Run (σ ⊕ α)) (s : Setting) (x : σ) (m : Machine) :
    σ → Machine → Prop where
  | start : Reaches step s x m x m
  | next {y z : σ} {m₁ m₂ : Machine} : Reaches step s x m y m₁ →
      step y s m₁ = .done (.inl z) m₂ → Reaches step s x m z m₂

/-- The body of `c`, called by `st` in a trampoline that was entered on machine `m`, runs on `m'`
with the frame of its call and with no evidence but its own: what dispatch found, what the closure
captured, and what its declared result tells while these two are in force. -/
structure OnOwnFrames (m : Machine) (frame : CallFrame) (st : LoopState) (c : Closure)
    (scope : ScopeId) (m' : Machine) : Prop where
  calls : m'.calls = m.calls.push frame
  witnesses : ∃ t : Machine, t.store = m'.store ∧
    t.witnesses.toList = m.witnesses.toList ++ (st.witness.toList ++ c.witnesses.toList) ∧
    m'.witnesses.toList = t.witnesses.toList ++ (t.returnWitness c scope).toList
  depth_le : m'.witnesses.depth ≤ m.witnesses.depth + 3

section Rounds

variable {fuel : Nat} {s : Setting} {m m₁ m₂ m₃ : Machine} {callee : Value} {args : List Value}
  {site : CallSite} {p : Pending} {st : LoopState}

theorem entry_of_depth_lt (hdepth : m.calls.depth < s.limits.maxCallDepth) :
    Entry (fun _ _ _ => True) s 0 m :=
  ⟨Nat.zero_le _, trivial, hdepth⟩

theorem always_restores (fuel : Nat) : Restores.Always .all (fun _ _ _ => True) (apply fuel) :=
  .apply (fun _ => Host.within_all _) (fun _ _ => trivial) fuel

/-- Reducing a callee runs no native function, so no program is loaded meanwhile. -/
theorem file_eq_of_reduce {r : Reduced}
    (h : reduce fuel callee args site s m = .done r m₁) : m₁.file = m.file := by
  have he := Restores.reduce (W := .only fun _ _ => False) (B := fun _ _ _ => True) (k := 0) fuel
    callee args site s m 0 (Nat.le_refl 0) (Nat.zero_le _) trivial
  rw [h] at he
  exact (Effect.sameSource he id).1

/-- Each round starts on the stacks that the trampoline found, with one more call in progress. -/
theorem inside_of_reaches (hdepth : m.calls.depth < s.limits.maxCallDepth)
    (hp : reduce fuel callee args site s { m with calls := m.calls.push (m.frame site) } =
      .done (.call p) m₁)
    (h : Reaches (loopStep (apply fuel) fuel m.witnesses.depth) s
      { p with site, reentered := false } m₁ st m₂) :
    Inside .all 0 m (m₂.frame st.site) [] m₂ := by
  have he := entry_of_depth_lt hdepth
  induction h with
  | start =>
    have hlen : ([] : List WitnessFrame).length ≤ 3 := by decide
    have h := Restores.inside (W := .all) (fun _ => .reduce fuel callee args site)
      (fun _ _ => trivial) he
      hlen (Inside.enter m (m.frame site))
    rw [hp] at h
    have hframe : m₁.frame site = m.frame site := by
      rw [Machine.frame, file_eq_of_reduce hp, Machine.frame]
    rw [hframe]
    exact h
  | @next y _ _ _ _ hstep ih =>
    have h := loopStep_inside (fun _ => Host.within_all _) (always_restores fuel)
      (fun _ _ => trivial) he fuel y ih
    rw [hstep] at h
    exact h

theorem onOwnFrames_of_openBody (hdepth : m.calls.depth < s.limits.maxCallDepth)
    (h : Inside .all 0 m (m₂.frame st.site) [] m₂) {id : Ident} {c : Closure} {scope : ScopeId}
    (hopen : openBody (apply fuel) id c st.toPending st.site s m₂ = .done (.ready scope) m₃) :
    OnOwnFrames m (m₂.frame st.site) st c scope m₃ := by
  have hopened := openBody_inside (always_restores fuel) (fun _ _ => trivial)
    (entry_of_depth_lt hdepth) id c st.toPending st.site h
  rw [hopen] at hopened
  obtain ⟨t, ht, h₃, hstore⟩ := hopened
  refine ⟨h₃.calls, ⟨t, hstore.symm, ht.witnesses, ?_⟩, ?_⟩
  · rw [h₃.witnesses, ht.witnesses, bodyFrames, ← List.append_assoc]
  · have hlen := length_bodyFrames_le st.toPending c scope t
    rw [h₃.depth_witnesses]
    omega

end Rounds

end Run

open Run in
/-- In every run from empty stacks there are never more calls in progress than allowed, nor more
than three frames of evidence for each, whatever is about to happen there. In each round of a
trampoline that was entered on machine `m`, the callee finds the evidence of `m` and one more call,
and its body runs with its own evidence on top. The frame names the file that was loaded last
when the callee took over. -/
theorem depths_bounded (fuel : Nat) :
    Throughout fuel Bounded ∧
    ∀ {s m callee args site p m₁ st m₂}, m.calls.depth < s.limits.maxCallDepth →
      reduce fuel callee args site s { m with calls := m.calls.push (m.frame site) } =
        .done (.call p) m₁ →
      Reaches (loopStep (apply fuel) fuel m.witnesses.depth) s { p with site, reentered := false }
        m₁ st m₂ →
      m₂.calls = m.calls.push (m₂.frame st.site) ∧ m₂.witnesses = m.witnesses ∧
      ∀ {id c scope m₃}, st.callee = .function id c →
        openBody (apply fuel) id c st.toPending st.site s m₂ = .done (.ready scope) m₃ →
        OnOwnFrames m (m₂.frame st.site) st c scope m₃ := by
  refine ⟨(Tidy.throughout (fun _ => Host.within_all _) WithinLimits.carries fuel).imp
    Tidy.bounded, ?_⟩
  intro s m callee args site p m₁ st m₂ hdepth hp hreach
  have h := inside_of_reaches hdepth hp hreach
  exact ⟨h.calls, h.witnesses_eq, fun _ => onOwnFrames_of_openBody hdepth h⟩

/-- A function without parameters that calls another one in tail position. -/
def relay : Func :=
  { (default : Func) with
    body := ⟨.call 0 ⟨.lambda { (default : Func) with name := "last" }, {}⟩ [], {}⟩ }

/-- A debugger that waits for the second of two bodies finds one call in progress; the second round
of the trampoline opens that body on the stacks that the first one found. -/
theorem depths_bounded_relay :
    let s : Setting := { breakpoint := fun e _ => match e with
      | .body c _ => c.func.name == "last"
      | _ => false }
    let callee : Value := .function 0 { func := relay, scope := 0 }
    let site : CallSite := { name := "relay" }
    let m : Machine := {}
    (∃ e m', apply 4 callee [] site s m = .halted (.breakpoint e m') ∧ m'.calls.depth = 1 ∧
      WithinLimits s m'.calls m'.witnesses) ∧
    ∃ p m₁ st m₂ c scope m₃,
      Run.reduce 3 callee [] site s { m with calls := m.calls.push (m.frame site) } =
        .done (.call p) m₁ ∧
      Run.Reaches (Run.loopStep (apply 3) 3 m.witnesses.depth) s { p with site, reentered := false }
        m₁ st m₂ ∧
      st.reentered = true ∧ Run.OnOwnFrames m (m₂.frame st.site) st c scope m₃ := by
  intro s callee site m
  have hstop : ∃ e m', apply 4 callee [] site s m = .halted (.breakpoint e m') ∧
      m'.calls.depth = 1 := ⟨_, _, rfl, rfl⟩
  have hround : ∃ p m₁ st m₂ id c scope m₃,
      Run.reduce 3 callee [] site s { m with calls := m.calls.push (m.frame site) } =
        .done (.call p) m₁ ∧
      Run.Reaches (Run.loopStep (apply 3) 3 m.witnesses.depth) s { p with site, reentered := false }
        m₁ st m₂ ∧
      st.reentered = true ∧ st.callee = .function id c ∧
      Run.openBody (apply 3) id c st.toPending st.site s m₂ = .done (.ready scope) m₃ :=
    ⟨_, _, _, _, _, _, _, _, rfl, .next .start rfl, rfl, rfl, rfl⟩
  obtain ⟨e, m', hstop, hdepth⟩ := hstop
  obtain ⟨p, m₁, st, m₂, id, c, scope, m₃, hp, hreach, hagain, hc, hopen⟩ := hround
  exact ⟨⟨e, m', hstop, hdepth,
      ((depths_bounded 4).1.apply callee [] site).withinLimits s m e m' rfl rfl hstop⟩,
    p, m₁, st, m₂, c, scope, m₃, hp, hreach, hagain,
    ((depths_bounded 3).2 (by decide) hp hreach).2.2 hc hopen⟩

end TraitLang
