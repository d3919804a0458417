import TraitLang.Proofs.Tracing

/-!
Traces of calls. Inside a call the frames below its own stay as they are; its own may be taken over
by tail calls. Main statement: every fault that leaves a call has a trace, which consists of the
frames in progress where it first surfaced, innermost first and cut off at the limit: those of the
caller, and above them the frame of the call itself unless it was refused.
-/
namespace TraitLang

/-- One more call is in progress than those below. -/
def OneAbove (below calls : Stack CallFrame) : Prop := ∃ call, calls = below.push call

namespace Run

theorem pushWitness_eq (w : Option WitnessFrame) (s : Setting) (m : Machine) :
    ∃ m₁, pushWitness w s m = .done () m₁ ∧ m₁.store = m.store ∧
      m₁.witnesses.toList = m.witnesses.toList ++ w.toList := by
  cases w with
  | none => exact ⟨m, rfl, rfl, (List.append_nil _).symm⟩
  | some frame => exact ⟨_, rfl, rfl, Stack.toList_push _ _⟩

/-- Where the body is about to run, the evidence of the closure is in force. -/
theorem opened_of_openBody {a : Apply} {id : Ident} {c : Closure} {p : Pending} {site : CallSite}
    {scope : ScopeId} {s : Setting} {m m₁ : Machine}
    (h : openBody a id c p site s m = .done (.ready scope) m₁) : c.Opened scope m₁ := by
  obtain ⟨b, m₂, -, h⟩ := done_of_bind h
  obtain ⟨b, m₃, -, h⟩ := done_of_bind h
  cases b with
  | short v => cases h
  | ready scope' =>
    obtain ⟨_, m₄, hevidence, h⟩ := done_of_bind h
    obtain ⟨_, t, hcaptured, hevidence⟩ := done_of_bind hevidence
    cases h
    obtain ⟨t', ht', -, hwitnesses⟩ := pushWitness_eq c.witnesses s m₃
    obtain ⟨m', hm', hstore, hwitnesses'⟩ := pushWitness_eq (t.returnWitness c scope) s t
    obtain rfl : t' = t := (Outcome.done.inj (ht'.symm.trans hcaptured)).2
    obtain rfl : m' = m₁ := (Outcome.done.inj (hm'.symm.trans hevidence)).2
    exact ⟨⟨m₃.witnesses, t', hstore.symm, hwitnesses, hwitnesses'⟩⟩

end Run

namespace Run.Traced

variable {α σ : Type} {s : Setting} {T : Tracing s} {K : Stack CallFrame → Prop} {a : Apply}

theorem partialApp (callee : Value) (args : List Value) (remaining : Nat) :
    (partialApp callee args remaining).Traced T K :=
  bind fresh fun _ => pure _

theorem iterate {step : σ → Run (σ ⊕ α)} (hstep : ∀ x, (step x).Traced T K) (fuel : Nat) (x : σ) :
    Traced T K (iterate step fuel x) := by
  induction fuel generalizing x with
  | zero => exact outOfFuel
  | succ fuel ih =>
    rw [iterate_succ]
    refine bind (hstep x) fun r => ?_
    cases r with
    | inl y => exact ih y
    | inr b => exact pure b

theorem pushWitness (w : Option WitnessFrame) : (pushWitness w).Traced T K := by
  cases w with
  | none => exact pure ()
  | some frame => exact modify fun _ => rfl

section Resolving

theorem resolveDefault (m : ClassMethod) (fb : Fallback) :
    (resolveDefault m fb).Traced T K := by
  have materialize (callee : Value) (key : Option (TypeKey × Bool)) :
      (Run.materialize m callee key).Traced T K := by
    cases key with
    | none => exact pure ()
    | some key => exact modify fun _ => rfl
  refine bind machine fun mach => ?_
  dsimp only
  split
  · exact bind fresh fun id => bind (materialize _ _) fun _ => pure _
  · split
    · exact pure _
    · exact fail _

theorem resolve (m : ClassMethod) (args : List Value) (site : CallSite) :
    (resolve m args site).Traced T K := by
  refine bind (reach fun _ => trivial) fun _ => bind machine fun mach => ?_
  split
  · exact pure _
  · exact resolveDefault m _

theorem reduceStep (site : CallSite) (p : Pending) : (reduceStep site p).Traced T K := by
  unfold Run.reduceStep
  split
  · exact pure _
  · exact pure _
  · dsimp only
    split
    · exact bind (partialApp _ _ _) fun v => pure _
    · refine bind (resolve _ _ site) fun r => ?_
      split
      · exact fail _
      · exact pure _
  · exact pure _

theorem reduce (fuel : Nat) (callee : Value) (args : List Value) (site : CallSite) :
    (reduce fuel callee args site).Traced T K :=
  iterate (reduceStep site) fuel _

end Resolving

section Binding

theorem evalValue (ha : Always T a) (ctx : EvalCtx) (scope : ScopeId) (e : Spanned Expr) :
    (evalValue a ctx scope e).Traced T K :=
  settled ha (node ha _ scope e)

theorem bindParams (ha : Always T a) (c : Closure) (scope : ScopeId) (supplied : Nat)
    (ps : List Param) (vs : List Value) : (bindParams a c scope supplied ps vs).Traced T K := by
  induction ps generalizing vs with
  | nil => rw [Run.bindParams]; exact pure _
  | cons p ps ih =>
    cases vs with
    | cons v vs =>
      rw [Run.bindParams]
      exact bind (define scope p.name v) fun _ => ih vs
    | nil =>
      rw [Run.bindParams]
      split
      · refine bind (evalValue ha {} c.scope _) fun v => ?_
        exact bind (define scope p.name v) fun _ => ih []
      · exact fail _

theorem bindDictionaries (f : Func) (scope : ScopeId) (dicts : List Dictionary) :
    (bindDictionaries f scope dicts).Traced T K := by
  cases dicts with
  | nil => exact pure _
  | cons d ds => exact bind (require _ _) fun bindings => defineAll scope bindings

theorem bindSurplus (f : Func) (scope : ScopeId) (plain : List Value) :
    (bindSurplus f scope plain).Traced T K := by
  unfold Run.bindSurplus
  split
  · split
    · exact define _ _ _
    · exact pure _
  · exact pure _

theorem bindScope (ha : Always T a) (c : Closure) (args : List Value) (site : CallSite) :
    (bindScope a c args site).Traced T K := by
  have types (scope : ScopeId) : (bindTypes scope site).Traced T K :=
    bind machine fun _ => defineAll scope _
  refine bind (newScope c.scope) fun scope => ?_
  refine bind (bindDictionaries _ scope _) fun _ => bind (types scope) fun _ => ?_
  exact bind (bindParams ha c scope _ _ _) fun _ => bind (bindSurplus _ scope _) fun _ => pure _

theorem bindArguments (ha : Always T a) (id : Ident) (c : Closure) (args : List Value)
    (site : CallSite) : (bindArguments a id c args site).Traced T K := by
  unfold Run.bindArguments
  dsimp only
  split
  · split
    · exact fail _
    · exact bind (partialApp _ _ _) fun v => pure _
  · split
    · exact fail _
    · exact bind (bindScope ha c args site) fun scope => pure _

theorem openBody (ha : Always T a) (id : Ident) (c : Closure) (p : Pending) (site : CallSite) :
    (openBody a id c p site).Traced T K := by
  have evidence (scope : ScopeId) : (pushEvidence c scope).Traced T K :=
    bind (pushWitness _) fun _ => bind machine fun _ => pushWitness _
  refine bind (pushWitness _) fun _ => bind (bindArguments ha id c p.args site) fun b => ?_
  cases b with
  | short v => exact pure _
  | ready scope => exact bind (evidence scope) fun _ => pure _

end Binding

section Natives

theorem callGlobal (ha : Always T a) (name : String) (args : List Value) :
    (callGlobal a name args).Traced T K :=
  bind (lookup _ name) fun callee => ha callee args _ K

theorem forM {f : σ → Run Unit} (hf : ∀ x, (f x).Traced T K) (xs : List σ) :
    (xs.forM f).Traced T K := by
  induction xs with
  | nil => exact pure ()
  | cons x xs ih => exact bind (hf x) fun _ => ih

theorem registry (f : Machine → Registry) :
    (Run.modify fun m => { m with registry := f m }).Traced T K :=
  modify fun _ => rfl

theorem declare (item : Item) : (declare item).Traced T K := by
  cases item with
  | func f => exact bind fresh fun _ => define _ _ _
  | data d =>
    refine forM (fun c => ?_) _
    split
    · exact define _ _ _
    · exact bind fresh fun _ => define _ _ _
  | traitDecl t =>
    exact bind (registry _) fun _ => forM (fun _ => bind fresh fun _ => define _ _ _) _
  | inst d => exact bind (registry _) fun _ => forM (fun _ => bind fresh fun _ => registry _) _
  | const c => exact pure ()

theorem defineConst (ha : Always T a) (item : Item) : (defineConst a item).Traced T K := by
  cases item with
  | const c => exact bind (evalValue ha _ _ _) fun v => define _ _ v
  | _ => exact pure ()

theorem loading (ha : Always T a) (p : AnalyzedProgram) : (loading a p).Traced T K :=
  bind (modify fun _ => rfl) fun _ => bind (forM declare _) fun _ => forM (defineConst ha) _

theorem register (r : Registration) : (register r).Traced T K := by
  cases r <;> exact modify fun _ => rfl

/-- A native function raises what one of its steps ended with, or a fault without a trace. The calls
are the same at each of its steps. -/
theorem perform (ha : Always T a) {calls : Stack CallFrame} (act : Action)
    (hact : act.Passes (T.allowed calls)) : (perform a act).Traced T (· = calls) := by
  induction act with
  | done v => exact pure v
  | fail f => exact throw fun _ heq => heq ▸ hact
  | write text next ih => exact bind (modify fun _ => rfl) fun _ => ih hact
  | fresh next ih => exact bind fresh fun id => ih id (hact id)
  | depths next ih =>
    exact bind (reach fun _ => trivial) fun _ => bind machine fun m => ih _ _ _ (hact _ _ _)
  | limits next ih => exact bind (reach fun _ => trivial) fun _ => setting (ih _ (hact _))
  | look next ih => exact bind machine fun m => ih _ _ (hact _ _)
  | newScope parent next ih => exact bind (newScope parent) fun id => ih id (hact id)
  | define scope name v next ih => exact bind (define scope name v) fun _ => ih hact
  | assign scope name v next ih =>
    exact bind (attempt (assign scope name v)) fun r => ih _ (hact _)
  | apply callee args site next ih =>
    exact attempt_bind (ha callee args site _) fun r hr => ih r (hact r hr)
  | call name args next ih =>
    exact attempt_bind (callGlobal ha name args) fun r hr => ih r (hact r hr)
  | eval e next ih => exact attempt_bind (evalValue ha {} _ e) fun r hr => ih r (hact r hr)
  | resolve method args site next ih =>
    exact attempt_bind (resolve method args site) fun r hr => ih r (hact r hr)
  | load p next ih => exact attempt_bind (loading ha p) fun r hr => ih r (hact r hr)
  | register r next ih => exact bind (register r) fun _ => ih hact

theorem runNative (ha : Always T a) (args : List Value) (native : Native) :
    (runNative a args native).Traced T K := by
  cases native with
  | core c => exact of_each fun _ _ => perform ha _ (CoreNative.passes_action _ c args)
  | host name =>
    exact setting (of_each fun calls _ => perform ha _ ((T.host calls).native name args))
  | resume name rest body scope =>
    refine bind (newScope scope) fun inner => bind (define inner name _) fun _ => ?_
    exact settled ha (form ha {} inner {} _)

theorem invoke (ha : Always T a) {b : Builtin} {args : List Value} (htakes : b.Takes args) :
    (invoke a b args).Traced T K :=
  bind (reach fun _ => htakes) fun _ => runNative ha args b.native

theorem callBuiltin (ha : Always T a) (b : Builtin) (args : List Value) :
    (callBuiltin a b args).Traced T K := by
  cases harity : b.arity with
  | none =>
    rw [callBuiltin_of_arity_eq_none a harity]
    exact invoke ha (Builtin.takes_of_arity_eq_none harity)
  | some n =>
    by_cases hfew : (plainArgs args).length < n - b.defaults.length
    · rw [callBuiltin_of_lt a harity hfew]
      split
      · exact fail _
      · exact partialApp _ _ _
    · by_cases hmany : n < (plainArgs args).length
      · rw [callBuiltin_of_gt a harity hmany]
        exact fail _
      · have hleast := Nat.not_lt.1 hfew
        have hmost := Nat.not_lt.1 hmany
        rw [callBuiltin_of_enough a harity hleast hmost]
        exact invoke ha (Builtin.takes_completed harity hleast hmost)

theorem applyNative (ha : Always T a) (callee : Value) (args : List Value) (site : CallSite) :
    (applyNative a callee args site).Traced T K := by
  unfold Run.applyNative
  dsimp only
  split
  · exact locate _ (callBuiltin ha _ args)
  · refine locate _ ?_
    split
    · exact pure _
    · split
      · exact fail _
      · split
        · exact partialApp _ _ _
        · exact fail _
  · refine locate _ ?_
    split
    · exact fail _
    · exact partialApp _ _ _
    · exact ofCause _
    · exact fail _
  · exact bind (ha _ args site K) fun v => locate _ (ha _ [v] site K)
  iterate 4 exact locate _ (ha _ args site K)
  · refine fallback_bind fun m => locate _ (ofExcept fun calls f hf => ?_)
    cases hanswer : (s.host.fallbackOn m).bind fun handler => handler callee args with
    | none =>
      rw [hanswer] at hf
      cases hf
      exact Fault.traceIn_of_none rfl
    | some answer =>
      obtain ⟨handler, hhandler, happly⟩ := Option.bind_eq_some_iff.1 hanswer
      rw [hanswer, Option.getD_some] at hf
      exact (T.host calls).fallback hhandler happly f hf

end Natives

section Loop

variable {below : Stack CallFrame}

/-- A tail call takes over the frame on top. -/
theorem handOver (fuel base : Nat) (step : Step) :
    (handOver fuel base step).Traced T (OneAbove below) := by
  cases step with
  | done v => exact pure _
  | tail callee args site =>
    refine bind (locate _ (reduce fuel callee args site)) fun r => ?_
    cases r with
    | short v => exact pure _
    | call next =>
      refine bind (fun m hm => ?_) fun _ => pure _
      obtain ⟨call, hcall⟩ := hm
      have htop : m.calls.replaceTop (m.frame site) = below.push (m.frame site) := by
        rw [hcall, Stack.replaceTop_push]
      exact ⟨m.frame site, htop⟩

theorem runFunction (ha : Always T a) (fuel base : Nat) (id : Ident) (c : Closure)
    (st : LoopState) : (runFunction a fuel base id c st).Traced T (OneAbove below) := by
  have hsite := Fault.trace_atTailSite st.site st.reentered
  intro m hm
  have hopen := mapFault hsite (openBody ha id c st.toPending st.site) m hm
  refine bind_at hopen fun b m₁ hrun hm₁ => ?_
  cases b with
  | short v => exact hm₁
  | ready scope =>
    have hopened := opened_of_openBody (done_of_mapFault hrun)
    refine bind_at (reach_at hopened hm₁) fun _ m₂ _ hm₂ => ?_
    exact bind (mapFault hsite (node ha _ scope c.func.body))
      (fun step => handOver fuel base step) m₂ hm₂

theorem loopStep (ha : Always T a) (fuel base : Nat) (st : LoopState) :
    (loopStep a fuel base st).Traced T (OneAbove below) := by
  have other : (do return .inr (← Run.runOther a st) : Run (LoopState ⊕ Value)).Traced T
      (OneAbove below) := by
    refine bind (bind (pushWitness _) fun _ => ?_) fun v => pure _
    exact mapFault (Fault.trace_atTailSite st.site st.reentered)
      (applyNative ha st.callee st.args st.site)
  unfold Run.loopStep
  cases st.callee with
  | function id c => exact runFunction ha fuel base id c st
  | _ => exact other

theorem trampoline (ha : Always T a) (fuel : Nat) (callee : Value) (args : List Value)
    (site : CallSite) : (trampoline a fuel callee args site).Traced T (OneAbove below) := by
  refine keepingWitnesses (bind machine fun m => ?_)
  refine bind (reduce fuel callee args site) fun r => ?_
  cases r with
  | short v => exact pure _
  | call p => exact iterate (loopStep ha fuel _) fuel _

theorem overflow (site : CallSite) : (overflow site).Traced T K := by
  refine bind (reach fun _ => trivial) fun _ m hm => ⟨hm, fun t ht => ?_⟩
  rw [Fault.trace_orTrace, Fault.trace_orLocation] at ht
  cases ht
  exact T.capture m.calls

/-- What leaves a call has a trace, its own or the one that is attached here. -/
theorem asCall (site : CallSite) {x : Run Value} (hx : ∀ below, x.Traced T (OneAbove below)) :
    (asCall site x).Traced T K := by
  intro m hm
  have hends := hx m.calls { m with calls := m.calls.push (m.frame site) } ⟨_, rfl⟩
  unfold Run.asCall
  split
  · exact overflow site m hm
  · unfold Run.withCall
    dsimp only
    cases hxm : x s { m with calls := m.calls.push (m.frame site) } with
    | done v m₁ =>
      rw [hxm] at hends
      obtain ⟨call, hcall⟩ := hends
      show K (m₁.calls.cut m.calls.depth)
      rwa [hcall, Stack.cut_push]
    | failed e m₁ =>
      rw [hxm] at hends
      obtain ⟨⟨call, hcall⟩, he⟩ := hends
      rw [hcall] at he
      show K (m₁.calls.cut m.calls.depth) ∧ Fault.TraceIn (T.allowed (m₁.calls.cut m.calls.depth)) _
      rw [hcall, Stack.cut_push]
      refine ⟨hm, fun t ht => ?_⟩
      rw [Fault.trace_orTrace, Option.some.injEq] at ht
      have hinner : T.allowed (m.calls.push call) t := by
        cases htrace : e.trace with
        | none =>
          rw [htrace, Option.getD_none] at ht
          exact ht ▸ T.capture _
        | some t' =>
          rw [htrace, Option.getD_some] at ht
          exact he t (ht ▸ htrace)
      exact T.outward hinner
    | halted why =>
      rw [hxm] at hends
      exact hends

/-- Applying a callable is traced, however deep it nests. -/
theorem apply (fuel : Nat) : Always T (apply fuel) := by
  induction fuel with
  | zero => exact fun _ _ _ _ => outOfFuel
  | succ fuel ih =>
    exact fun callee args site _ => asCall site fun _ => trampoline ih fuel callee args site

end Loop

end Run.Traced

/-- Traces that show the calls below them: innermost first, cut off at the limit. -/
def Tracing.ofCalls {s : Setting} (hhost : ∀ T, s.host.Passes T) : Tracing s where
  allowed calls t := ∃ above, t = (calls.toList ++ above).reverse.take s.limits.traceLimit
  capture calls := ⟨[], by rw [List.append_nil]; rfl⟩
  outward := by
    rintro calls call t ⟨above, rfl⟩
    exact ⟨call :: above, by simp⟩
  host calls := hhost _

namespace Run

variable {α : Type} {s : Setting} {m m' : Machine} {f : Fault}

theorem trace_of_overflow {site : CallSite} (h : overflow site s m = .failed f m') :
    f.trace = some (CallFrame.capture m.calls s.limits.traceLimit) := by
  by_cases hstop : s.breakpoint (.overflow site) m = true
  · simp [overflow, Bind.bind, Run.bind, reach, hstop] at h
  · simp only [overflow, Bind.bind, Run.bind, reach, hstop, setting, machine, throw] at h
    cases h
    simp [Fault.trace_orTrace]

/-- A fault leaves a call with the trace that it has, or else with the calls in progress. -/
theorem trace_of_withCall {frame : CallFrame} {x : Run α}
    (h : withCall frame x s m = .failed f m') :
    ∃ e m₁, x s { m with calls := m.calls.push frame } = .failed e m₁ ∧
      f.trace = some (e.trace.getD (CallFrame.capture m₁.calls s.limits.traceLimit)) := by
  unfold withCall at h
  dsimp only at h
  cases hrun : x s { m with calls := m.calls.push frame } with
  | done v m₁ => rw [hrun] at h; cases h
  | halted why => rw [hrun] at h; cases h
  | failed e m₁ =>
    rw [hrun] at h
    cases h
    exact ⟨e, m₁, rfl, e.trace_orTrace _⟩

end Run

/-- A fault that leaves a call, given that native functions, bridge and last resort raise no traces
but those that they get: its trace shows the calls that were in progress when the call was entered,
unchanged, and above them those of the call, which are none exactly if it was refused. The trace is
the one that the fault had when it reached the call; only if it had none, it is taken there. -/
theorem apply_trace {fuel : Nat} {callee : Value} {args : List Value} {site : CallSite}
    {s : Setting} {m m' : Machine} {f : Fault} (hhost : ∀ T, s.host.Passes T)
    (h : apply fuel callee args site s m = .failed f m') :
    (∃ above, f.trace = some ((m.calls.toList ++ above).reverse.take s.limits.traceLimit) ∧
      (above = [] ↔ s.limits.maxCallDepth ≤ m.calls.depth)) ∧
    ∀ {n e m₁}, fuel = n + 1 → m.calls.depth < s.limits.maxCallDepth →
      Run.trampoline (apply n) n callee args site s
        { m with calls := m.calls.push (m.frame site) } = .failed e m₁ →
      f.trace = some (e.trace.getD (CallFrame.capture m₁.calls s.limits.traceLimit)) := by
  cases fuel with
  | zero => cases h
  | succ n =>
    rw [apply, Run.applyWith, Run.asCall] at h
    by_cases hdepth : s.limits.maxCallDepth ≤ m.calls.depth
    · rw [if_pos hdepth] at h
      refine ⟨⟨[], ?_, by simp [hdepth]⟩, fun _ hlt => absurd hdepth (Nat.not_le.2 hlt)⟩
      rw [Run.trace_of_overflow h, List.append_nil, CallFrame.capture]
    · rw [if_neg hdepth] at h
      obtain ⟨e, m₁, hrun, htrace⟩ := Run.trace_of_withCall h
      have htraced : (Run.trampoline (apply n) n callee args site).Traced (.ofCalls hhost)
          (OneAbove m.calls) := .trampoline (.apply n) n callee args site
      have hinside := htraced { m with calls := m.calls.push (m.frame site) } ⟨_, rfl⟩
      rw [hrun] at hinside
      obtain ⟨⟨call, hcall⟩, he⟩ := hinside
      rw [hcall] at he
      refine ⟨?_, fun {n' e' m'} hfuel _ hrun' => ?_⟩
      · cases hown : e.trace with
        | none =>
          refine ⟨[call], ?_, by simp [hdepth]⟩
          rw [htrace, hown, Option.getD_none, hcall, CallFrame.capture, Stack.toList_push]
        | some t =>
          obtain ⟨above, rfl⟩ := he t hown
          refine ⟨call :: above, ?_, by simp [hdepth]⟩
          rw [htrace, hown, Option.getD_some, Stack.toList_push, List.append_assoc,
            List.singleton_append]
      · obtain rfl : n = n' := Nat.succ.inj hfuel
        rw [hrun] at hrun'
        cases hrun'
        exact htrace

/-- Its only native function applies its argument and raises the fault that it gets. -/
def relaying : Host where
  native _ args := match args with
    | [callee] => .apply callee [] { name := "inner" } .ofResult
    | _ => .done .unit

theorem relaying_passes (T : List CallFrame → Prop) : relaying.Passes T where
  native name args := by
    have raised (r : Except Fault Value) (hr : FaultIn T r) : (Action.ofResult r).Passes T := by
      cases r with
      | ok v => trivial
      | error f => exact hr f rfl
    cases args with
    | nil => trivial
    | cons callee rest =>
      cases rest with
      | nil => exact raised
      | cons v rest => trivial
  callMember {m} _ h := by
    unfold Host.bridgeOn at h
    cases hb : m.bridge <;> simp [hb, relaying] at h
  readField {m} _ h := by
    unfold Host.bridgeOn at h
    cases hb : m.bridge <;> simp [hb, relaying] at h
  fallback {m} _ h := by
    unfold Host.fallbackOn at h
    cases hf : m.fallback <;> simp [hf, relaying] at h

/-- A function that calls another one in tail position, which fails. -/
def failing : Value :=
  .function 0
    { func := { (default : Func) with
        body := ⟨.call 0 ⟨.lambda { (default : Func) with
          name := "last", body := ⟨.var "missing", {}⟩ }, {}⟩ [], {}⟩ }
      scope := Store.global }

/-- Names in the trace of the fault, innermost first. -/
def Outcome.tracedNames {α : Type} : Outcome α → Option (List String)
  | .failed f _ => f.trace.map fun t => t.map CallFrame.name
  | _ => none

/-- The innermost frame is that of the tail call; the frame of the native function, which raises the
fault again, comes next, and the one of its caller does not fit any more. -/
theorem apply_trace_relaying :
    let s : Setting := { limits := { traceLimit := 2 }, host := relaying }
    let m : Machine := { calls := Stack.push {} ⟨"main", "<input>", {}⟩ }
    let callee : Value := .builtin
      { id := 1, name := "relay", native := .host "relay", signature := none, defaults := [] }
    ∃ f m', apply 4 callee [failing] { name := "outer" } s m = .failed f m' ∧
      (apply 4 callee [failing] { name := "outer" } s m).tracedNames = some ["last", "outer"] ∧
      ∃ above, f.trace = some ((m.calls.toList ++ above).reverse.take 2) ∧
        (above = [] ↔ s.limits.maxCallDepth ≤ m.calls.depth) := by
  intro s m callee
  have hnames : (apply 4 callee [failing] { name := "outer" } s m).tracedNames =
      some ["last", "outer"] := by decide +kernel
  cases hrun : apply 4 callee [failing] { name := "outer" } s m with
  | failed f m' => exact ⟨f, m', rfl, hrun ▸ hnames, (apply_trace relaying_passes hrun).1⟩
  | done v m' => rw [hrun] at hnames; cases hnames
  | halted why => rw [hrun] at hnames; cases hnames

end TraitLang
