import TraitLang.Proofs.CoupledCalls

/-!
More fuel changes nothing, and neither do fewer breakpoints or a limit that a run does not get to:
one that returns does so with the same result on the same machine. So the outcome of a call is a
relation that does not mention fuel.
-/
namespace TraitLang

section Unmasked

variable {v v' : Value} {vs vs' : List Value}

theorem SameValue.refl (g : Fault → Fault) (v : Value) : SameValue g v v := rfl

theorem SameValue.eq (h : SameValue id v v') : v = v' := by
  rwa [SameValue, Value.mask_id, Value.mask_id] at h

theorem SameValues.refl (g : Fault → Fault) (vs : List Value) : SameValues g vs vs := rfl

theorem SameValues.eq (h : SameValues id vs vs') : vs = vs' := by
  rwa [SameValues, Value.mask_id_all, Value.mask_id_all] at h

theorem SameResolution.eq {r r' : Resolution} (h : SameResolution id r r') : r = r' := by
  obtain ⟨callee, args, witness⟩ := r
  obtain ⟨hcallee, hargs, hwitness⟩ := h
  obtain rfl := hcallee.eq
  obtain rfl := hargs.eq
  obtain rfl := hwitness
  rfl

theorem SameResult.eq {α : Type} {R : α → α → Prop} (hR : ∀ a a', R a a' → a = a')
    {r r' : Except Fault α} (h : SameResult id R r r') : r = r' := by
  cases h with
  | ok ha => rw [hR _ _ ha]
  | error hf => exact congrArg Except.error hf

theorem SameResult.refl {α : Type} (g : Fault → Fault) {R : α → α → Prop} (hR : ∀ a, R a a)
    (r : Except Fault α) : SameResult g R r r := by
  cases r with
  | ok a => exact .ok (hR a)
  | error f => exact .error rfl

theorem SameBinding.eq {r r' : Binding} (h : SameBinding id r r') : r = r' := by
  cases h with
  | ready scope => rfl
  | short hv => rw [hv.eq]

theorem SameReduced.eq {r r' : Reduced} (h : SameReduced id r r') : r = r' := by
  cases h with
  | short hv => rw [hv.eq]
  | @call p p' hp =>
    obtain ⟨callee, args, witness⟩ := p
    obtain ⟨hcallee, hargs, hwitness⟩ := hp
    obtain rfl := hcallee.eq
    obtain rfl := hargs.eq
    obtain rfl := hwitness
    rfl

theorem SameStep.eq {step step' : Step} (h : SameStep id step step') : step = step' := by
  cases h with
  | done hv => rw [hv.eq]
  | tail site hcallee hargs => rw [hcallee.eq, hargs.eq]

theorem SameRegistration.refl (r : Registration) : SameRegistration id r r := by
  cases r with
  | traitDefault => exact .traitDefault _ _ rfl
  | instanceMethod => exact .instanceMethod _ _ _ rfl
  | bridge name => exact .bridge name
  | fallback name => exact .fallback name

theorem SameAction.refl (act : Action) : SameAction id act act := by
  have hvalue {r r' : Except Fault Value} (h : SameResult id (SameValue id) r r') : r = r' :=
    h.eq fun _ _ => SameValue.eq
  induction act with
  | done v => exact .done rfl
  | fail f => exact .fail rfl
  | write text next ih => exact .write text ih
  | fresh next ih => exact .fresh ih
  | depths next ih => exact .depths ih
  | limits next ih => exact .limits ih
  | look next ih =>
    refine .look fun r r' st st' hr hst => ?_
    rw [Registry.mask_id, Registry.mask_id] at hr
    rw [Store.mask_id, Store.mask_id] at hst
    exact hr ▸ hst ▸ ih r st
  | newScope parent next ih => exact .newScope parent ih
  | define scope name v next ih => exact .define scope name rfl ih
  | assign scope name v next ih => exact .assign scope name rfl ih
  | apply callee args site next ih => exact .apply site rfl rfl fun r r' h => hvalue h ▸ ih r
  | call name args next ih => exact .call name rfl fun r r' h => hvalue h ▸ ih r
  | eval e next ih => exact .eval e fun r r' h => hvalue h ▸ ih r
  | resolve method args site next ih =>
    exact .resolve method site rfl fun r r' h => (h.eq fun _ _ => SameResolution.eq) ▸ ih r
  | load p next ih => exact .load p fun r r' h => (h.eq fun _ _ => id) ▸ ih r
  | register r next ih => exact .register (.refl r) ih

theorem Host.blind_id (h : Host) : h.Blind id where
  native _ _ _ hargs := hargs.eq ▸ .refl _
  member _ _ _ _ _ _ _ hargs := hargs.eq ▸ .refl _ (SameValue.refl _) _
  fallback handler _ v v' args args' hv hargs := by
    rw [hv.eq, hargs.eq]
    cases handler v' args' with
    | none => exact .none
    | some r => exact .some (.refl _ (SameValue.refl _) r)

end Unmasked

/-- Setting `t` is as `s` but for a debugger that stops a run less often and a limit on calls that
is larger. The limit stays the same unless the debugger of `s` stops every run that gets there, and
natives do not learn of it. -/
structure Setting.Eases (s t : Setting) : Prop where
  host : t.host = s.host
  traceLimit : t.limits.traceLimit = s.limits.traceLimit
  breakpoint : ∀ e m, e ≠ .limits → s.breakpoint e m = false → t.breakpoint e m = false
  maxCallDepth : t.limits.maxCallDepth = s.limits.maxCallDepth ∨
    s.limits.maxCallDepth ≤ t.limits.maxCallDepth ∧
      ∀ site m, s.breakpoint (.overflow site) m = true
  limits : s.host.IgnoresLimits ∨
    ∀ m, s.breakpoint .limits m = false → t.breakpoint .limits m = false ∧ s.limits = t.limits

namespace Setting.Eases

variable {s t : Setting}

theorem of_breakpoint {b : Event → Machine → Bool}
    (hb : ∀ e m, s.breakpoint e m = false → b e m = false) :
    s.Eases { s with breakpoint := b } :=
  ⟨rfl, rfl, fun e m _ => hb e m, .inl rfl, .inr fun m h => ⟨hb .limits m h, rfl⟩⟩

theorem refl (s : Setting) : s.Eases s := of_breakpoint fun _ _ h => h

theorem depth_le (ht : s.Eases t) : s.limits.maxCallDepth ≤ t.limits.maxCallDepth := by
  obtain heq | ⟨hle, -⟩ := ht.maxCallDepth
  · exact Nat.le_of_eq heq.symm
  · exact hle

end Setting.Eases

namespace Coupling

/-- Two runs on one machine in two settings. -/
def exactly (s t : Setting) : Coupling where
  left := s
  right := t
  mask := id
  frames calls witnesses calls' witnesses' := calls = calls' ∧ witnesses = witnesses'

variable {s t : Setting} {α : Type} {R : α → α → Prop}

theorem machines_exactly {m m' : Machine} (h : (exactly s t).Machines m m') : m = m' := by
  obtain ⟨hstore, hregistry, hfile, hhints, hb, hf, ⟨hcalls, hwitnesses⟩, ht, hk, ho, hn⟩ := h
  simp only [exactly, Store.mask_id] at hstore
  simp only [exactly, Registry.mask_id] at hregistry
  cases m
  cases m'
  simp_all

theorem machines_refl (m : Machine) : (exactly s t).Machines m m :=
  ⟨rfl, rfl, rfl, rfl, rfl, rfl, ⟨rfl, rfl⟩, rfl, rfl, rfl, rfl⟩

/-- A run that does not ask for the setting follows itself. -/
theorem follows_self (hR : ∀ a, R a a) {x : Run α} (hx : ∀ m, x s m = x t m) :
    (exactly s t).Follows R x x := by
  intro m m' hm
  obtain rfl := machines_exactly hm
  show (exactly s t).Outcomes R (x s m) (x t m)
  rw [← hx]
  cases x s m with
  | done a m₁ => exact .done (hR a) (machines_refl m₁)
  | failed f m₁ => exact .failed rfl (machines_refl m₁)
  | halted why => exact .halted _ _

theorem exactly_pushWitness (frame : Option WitnessFrame) :
    (exactly s t).Follows Eq (Run.pushWitness frame) (Run.pushWitness frame) := by
  refine follows_self (fun _ => rfl) fun m => ?_
  cases frame <;> rfl

theorem exactly_pushEvidence (c : Closure) (scope : ScopeId) :
    (exactly s t).Follows Eq (Run.pushEvidence c scope) (Run.pushEvidence c scope) := by
  refine .bind (exactly_pushWitness c.witnesses) fun _ _ _ => .machine_bind fun m m' hm => ?_
  obtain rfl := machines_exactly hm
  exact exactly_pushWitness _

theorem exactly_resolveDefault (method : ClassMethod) (fb : Fallback) (m : Machine) :
    Run.resolveDefault method fb s m = Run.resolveDefault method fb t m := by
  unfold Run.resolveDefault
  rw [Run.machine_bind, Run.machine_bind]
  cases m.registry.userDefault? method.traitName method.method with
  | some f => cases m.registry.defaultKey method fb <;> rfl
  | none => cases m.registry.builtinDefault? method.traitName method.method <;> rfl

section Engines

variable {a a' : Apply} {n k : Nat} (ht : s.Eases t)

include ht

theorem exactly_reach {e : Event} (hlimits : e ≠ .limits) :
    (exactly s t).Follows Eq (Run.reach e) (Run.reach e) := by
  intro m m' hm
  obtain rfl := machines_exactly hm
  show (exactly s t).Outcomes Eq (if s.breakpoint e m then _ else _)
    (if t.breakpoint e m then _ else _)
  cases he : s.breakpoint e m with
  | true => exact .halted _ _
  | false =>
    rw [ht.breakpoint e m hlimits he]
    exact .done rfl (machines_refl m)

theorem exactly_resolve (method : ClassMethod) (args : List Value) (site : CallSite) :
    (exactly s t).Follows (SameResolution id) (Run.resolve method args site)
      (Run.resolve method args site) := by
  refine .bind (exactly_reach ht Event.noConfusion) fun _ _ _ => ?_
  refine .machine_bind fun m m' hm => ?_
  obtain rfl := machines_exactly hm
  cases m.select method args site with
  | inl found => exact .pure ⟨rfl, rfl, rfl⟩
  | inr fb =>
    exact follows_self (fun _ => ⟨rfl, rfl, rfl⟩) (exactly_resolveDefault method fb)

theorem exactly_lawful : (exactly s t).Lawful where
  cause _ := rfl
  orLocation span h := congrArg (Fault.orLocation · span) h
  host := ht.host.symm
  blind := s.host.blind_id
  witnesses h := h.2
  reach he hm h := by
    obtain rfl := machines_exactly hm
    cases he with
    | native ht' hargs =>
      simp only [exactly, Builtin.mask_id] at ht'
      obtain rfl := ht'
      rw [← SameValues.eq hargs]
      exact ht.breakpoint _ _ Event.noConfusion h
    | _ => exact ht.breakpoint _ _ Event.noConfusion h
  depths hm _ := by rw [machines_exactly hm]
  limits := ht.limits.imp_right fun h m m' hm hb => machines_exactly hm ▸ h m hb
  resolve method args args' site h := by
    rw [SameValues.eq h]
    exact exactly_resolve ht method args' site

theorem exactly_openBody (ha : (exactly s t).Applies a a') (ident : Ident) (c : Closure)
    (p : Pending) (site : CallSite) :
    (exactly s t).Follows Eq (Run.openBody a ident c p site)
      (Run.openBody a' ident c p site) := by
  have hargs := Follows.bindArguments (exactly_lawful ht) ha ident c site
    (SameValues.refl id p.args)
  refine .bind (exactly_pushWitness p.witness) fun _ _ _ => ?_
  refine .bind (hargs.imp fun _ _ => SameBinding.eq) fun r r' hr => ?_
  obtain rfl := hr
  cases r with
  | short v => exact .pure rfl
  | ready scope => exact .bind (exactly_pushEvidence c scope) fun _ _ _ => .pure rfl

theorem exactly_handOver (hnk : n ≤ k) (base : Nat) (step : Step) :
    (exactly s t).Follows Eq (Run.handOver n base step) (Run.handOver k base step) := by
  cases step with
  | done v => exact .pure rfl
  | tail callee args site =>
    have hreduce := Follows.reduce (exactly_lawful ht) hnk site (SameValue.refl id callee)
      (SameValues.refl id args)
    have hlocated := Follows.mapFault (fun _ _ => (exactly_lawful ht).orLocation site.span) hreduce
    refine .bind (hlocated.imp fun _ _ => SameReduced.eq) fun r r' hr => ?_
    obtain rfl := hr
    cases r with
    | short v => exact .pure rfl
    | call next =>
      exact follows_self (fun _ => rfl) fun m => rfl

theorem exactly_runOther (ha : (exactly s t).Applies a a') (st : LoopState) :
    (exactly s t).Follows (SameValue id) (Run.runOther a st) (Run.runOther a' st) := by
  refine .bind (exactly_pushWitness st.witness) fun _ _ _ => ?_
  exact .mapFault (fun f f' (h : f = f') => congrArg (Fault.atTailSite st.site st.reentered) h)
    (.applyNative (exactly_lawful ht) ha st.site rfl rfl)

theorem exactly_loopStep (ha : (exactly s t).Applies a a') (hnk : n ≤ k) (base : Nat)
    (st : LoopState) :
    (exactly s t).Follows Eq (Run.loopStep a n base st) (Run.loopStep a' k base st) := by
  have hsite {α : Type} {R : α → α → Prop} {x x' : Run α} (hx : (exactly s t).Follows R x x') :=
    Follows.mapFault (fun f f' (h : f = f') =>
      congrArg (Fault.atTailSite st.site st.reentered) h) hx
  have hother : (exactly s t).Follows Eq (do return .inr (← Run.runOther a st))
      (do return .inr (← Run.runOther a' st) : Run (LoopState ⊕ Value)) :=
    .bind (exactly_runOther ht ha st) fun _ _ hv => .pure (by rw [SameValue.eq hv])
  unfold Run.loopStep
  cases st.callee with
  | function id c =>
    refine .bind (hsite (exactly_openBody ht ha id c st.toPending st.site)) fun r r' hr => ?_
    obtain rfl := hr
    cases r with
    | short v => exact .pure rfl
    | ready scope =>
      refine .bind (exactly_reach ht Event.noConfusion) fun _ _ _ => ?_
      refine .bind (hsite (Follows.node (exactly_lawful ht) ha _ scope c.func.body))
        fun step step' hstep => ?_
      obtain rfl := hstep.eq
      exact exactly_handOver ht hnk base step
  | _ => exact hother

omit ht in
theorem exactly_keepingWitnesses {x x' : Run Value}
    (hx : (exactly s t).Follows (SameValue id) x x') :
    (exactly s t).Follows (SameValue id) (Run.keepingWitnesses x) (Run.keepingWitnesses x') := by
  intro m m' hm
  obtain rfl := machines_exactly hm
  exact Follows.ensuring hx hm fun m₁ m₁' hm₁ => machines_exactly hm₁ ▸ machines_refl _

theorem exactly_asCall (site : CallSite) {x x' : Run Value}
    (hx : (exactly s t).Follows (SameValue id) x x') :
    (exactly s t).Follows (SameValue id) (Run.asCall site x) (Run.asCall site x') := by
  intro m m' hm
  obtain rfl := machines_exactly hm
  show (exactly s t).Outcomes _ (if s.limits.maxCallDepth ≤ m.calls.depth then _ else _)
    (if t.limits.maxCallDepth ≤ m.calls.depth then _ else _)
  split
  · -- the check fires on the left: the run is stopped there, or the limits are the same
    obtain hlimit | ⟨-, hstop⟩ := ht.maxCallDepth
    · rw [if_pos (by omega)]
      refine Follows.bind (Q := SameValue id) (exactly_reach ht Event.noConfusion)
        (fun _ _ _ => follows_self (SameValue.refl id) fun m => ?_) m m hm
      rw [Run.setting_bind, Run.setting_bind, hlimit, ht.traceLimit]
      rfl
    · have hhalt : Run.overflow site s m = .halted (.breakpoint (.overflow site) m) := by
        show Run.bind (Run.reach (.overflow site)) _ s m = _
        rw [Run.bind, Run.reach, if_pos (hstop site m)]
      rw [show (exactly s t).left = s from rfl, hhalt]
      exact .halted _ _
  · have hdepth := ht.depth_le
    rw [if_neg (by omega)]
    have h := hx { m with calls := m.calls.push (m.frame site) } _ (machines_refl _)
    show (exactly s t).Outcomes _ (Run.withCall (m.frame site) x s m)
      (Run.withCall (m.frame site) x' t m)
    unfold Run.withCall
    dsimp only [exactly] at h ⊢
    rw [ht.traceLimit]
    generalize x s _ = o, x' t _ = o' at h ⊢
    cases h with
    | done hv hm₁ =>
      obtain rfl := machines_exactly hm₁
      exact .done hv (machines_refl _)
    | failed hf hm₁ =>
      obtain rfl := machines_exactly hm₁
      obtain rfl := hf
      exact .failed rfl (machines_refl _)
    | halted why o => exact .halted _ _

/-- A trampoline depends on its callee only through what that is reduced to. -/
theorem exactly_trampoline (ha : (exactly s t).Applies a a') (hnk : n ≤ k)
    {callee callee' : Value} {args args' : List Value} {site : CallSite}
    (hreduce : (exactly s t).Follows (SameReduced id) (Run.reduce n callee args site)
      (Run.reduce k callee' args' site)) :
    (exactly s t).Follows (SameValue id) (Run.trampoline a n callee args site)
      (Run.trampoline a' k callee' args' site) := by
  refine exactly_keepingWitnesses (Follows.machine_bind fun m₁ m₁' hm₁ => ?_)
  obtain rfl := machines_exactly hm₁
  refine .bind hreduce fun r r' hr => ?_
  obtain rfl := hr.eq
  cases r with
  | short v => exact .pure rfl
  | call p =>
    refine Follows.iterate (S := Eq) (fun {st st'} hst => ?_) hnk rfl
    obtain rfl := hst
    refine (exactly_loopStep ht ha hnk _ st).imp fun r r' hr => ?_
    obtain rfl := hr
    cases r with
    | inl next => exact .inl rfl
    | inr v => exact .inr rfl

theorem exactly_applyWith (ha : (exactly s t).Applies a a') (hnk : n ≤ k)
    {callee callee' : Value} {args args' : List Value} {site : CallSite}
    (hreduce : (exactly s t).Follows (SameReduced id) (Run.reduce n callee args site)
      (Run.reduce k callee' args' site)) :
    (exactly s t).Follows (SameValue id) (Run.applyWith a n callee args site)
      (Run.applyWith a' k callee' args' site) :=
  exactly_asCall ht site (exactly_trampoline ht ha hnk hreduce)

theorem exactly_apply (hnk : n ≤ k) : (exactly s t).Applies (apply n) (apply k) := by
  induction n generalizing k with
  | zero => exact fun _ _ _ => Follows.outOfFuel _
  | succ n ih =>
    cases k with
    | zero => omega
    | succ k =>
      have hnk := Nat.le_of_succ_le_succ hnk
      intro callee callee' args args' site hcallee hargs
      exact exactly_applyWith ht (ih hnk) hnk
        (Follows.reduce (exactly_lawful ht) hnk site hcallee hargs)

end Engines

end Coupling

/-- The outcome is a result, not that the run was cut short. -/
def Outcome.Returned {α : Type} : Outcome α → Prop
  | .halted _ => False
  | _ => True

instance {α : Type} : DecidablePred (Outcome.Returned (α := α))
  | .done _ _ | .failed _ _ => .isTrue trivial
  | .halted _ => .isFalse id

theorem Coupling.eq_of_outcomes {α : Type} {R : α → α → Prop} {s t : Setting}
    {o o' : Outcome α} (hR : ∀ a a', R a a' → a = a')
    (h : (exactly s t).Outcomes R o o') (ho : o.Returned) : o' = o := by
  cases h with
  | done ha hm => rw [hR _ _ ha, machines_exactly hm]
  | @failed f f' m m' hf hm =>
    obtain rfl : f = f' := hf
    rw [machines_exactly hm]
  | halted why o => cases ho

/-- A call returns with an outcome, given enough fuel. -/
def Returns (callee : Value) (args : List Value) (site : CallSite) (s : Setting) (m : Machine)
    (o : Outcome Value) : Prop :=
  o.Returned ∧ ∃ fuel, apply fuel callee args site s m = o

namespace Returns

open Coupling

variable {callee callee' : Value} {args args' : List Value} {site : CallSite} {s : Setting}
  {m : Machine} {o o' : Outcome Value}

/-- A call returns what another one returns that it follows with some fuel. -/
theorem of_follows {t : Setting}
    (hfollows : ∀ n, ∃ k, (exactly s t).Follows (SameValue id)
      (apply n callee args site) (apply k callee' args' site))
    (h : Returns callee args site s m o) : Returns callee' args' site t m o := by
  obtain ⟨ho, n, rfl⟩ := h
  obtain ⟨k, hk⟩ := hfollows n
  exact ⟨ho, k, eq_of_outcomes (fun _ _ => SameValue.eq) (hk m m (machines_refl m)) ho⟩

/-- A call returns the same in a setting that stops it no earlier. -/
theorem of_eases {t : Setting} (ht : s.Eases t) (h : Returns callee args site s m o) :
    Returns callee args site t m o :=
  h.of_follows fun n => ⟨n, exactly_apply ht (Nat.le_refl n) site rfl rfl⟩

/-- What a call returns does not depend on the fuel. -/
theorem unique (h : Returns callee args site s m o) (h' : Returns callee args site s m o') :
    o = o' := by
  obtain ⟨ho, n, rfl⟩ := h
  obtain ⟨ho', k, rfl⟩ := h'
  have heq {n k : Nat} (hnk : n ≤ k) (ho : (apply n callee args site s m).Returned) :
      apply k callee args site s m = apply n callee args site s m := by
    have happlies := exactly_apply (.refl s) hnk site (SameValue.refl id callee)
      (SameValues.refl id args)
    exact eq_of_outcomes (fun _ _ => SameValue.eq) (happlies m m (machines_refl m)) ho
  obtain hnk | hkn := Nat.le_total n k
  · exact (heq hnk ho).symm
  · exact heq hkn ho'

end Returns

end TraitLang
