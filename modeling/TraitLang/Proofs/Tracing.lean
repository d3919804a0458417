import TraitLang.Proofs.NativeArguments

/-!
Traces of faults, and what holds where a debugger stops. Code that runs while calls are in progress
raises faults without a trace, or with the trace that a call above it attached; nothing but a call
attaches one. A debugger finds the evidence of a closure in force where its body is about to run,
and as many arguments as declared where a native function is. Main statement: whatever holds of the
traces that calls attach holds of those that evaluation raises, and it is stopped in sound places.
-/
namespace TraitLang

namespace Fault

/-- The trace, if there is one, satisfies `T`. -/
def TraceIn (T : List CallFrame → Prop) (f : Fault) : Prop := ∀ t, f.trace = some t → T t

variable {T T' : List CallFrame → Prop} {f g : Fault}

theorem TraceIn.imp (h : f.TraceIn T) (himp : ∀ t, T t → T' t) : f.TraceIn T' :=
  fun t ht => himp t (h t ht)

theorem TraceIn.of_trace_eq (h : f.TraceIn T) (htrace : g.trace = f.trace) : g.TraceIn T :=
  fun t ht => h t (htrace ▸ ht)

theorem traceIn_of_none (h : f.trace = none) : f.TraceIn T := fun t ht => by
  rw [h] at ht
  cases ht

theorem trace_orTrace (f : Fault) (t : List CallFrame) :
    (f.orTrace t).trace = some (f.trace.getD t) := by
  cases h : f.trace <;> simp [orTrace, h]

@[simp] theorem trace_atTailSite (site : CallSite) (reentered : Bool) (f : Fault) :
    (f.atTailSite site reentered).trace = f.trace := by
  unfold atTailSite
  split
  · exact f.trace_orLocation site.span
  · rfl

end Fault

/-- If it is a fault, its trace satisfies `T`. -/
def FaultIn {α : Type} (T : List CallFrame → Prop) (r : Except Fault α) : Prop :=
  ∀ f, r = .error f → f.TraceIn T

/-- What holds of all traces that a native function gets holds of the one that it raises: it makes
none of its own. -/
def Action.Passes (T : List CallFrame → Prop) : Action → Prop
  | done _ => True
  | fail f => f.TraceIn T
  | write _ next | define _ _ _ next | register _ next => next.Passes T
  | fresh next => ∀ id, (next id).Passes T
  | depths next => ∀ calls witnesses types, (next calls witnesses types).Passes T
  | limits next => ∀ l, (next l).Passes T
  | look next => ∀ r st, (next r st).Passes T
  | newScope _ next => ∀ id, (next id).Passes T
  | assign _ _ _ next => ∀ bound, (next bound).Passes T
  | apply _ _ _ next | call _ _ next | eval _ next => ∀ r, FaultIn T r → (next r).Passes T
  | resolve _ _ _ next => ∀ r, FaultIn T r → (next r).Passes T
  | load _ next => ∀ r, FaultIn T r → (next r).Passes T

/-- What the embedding program supplies raises no traces but those that it gets. -/
structure Host.Passes (T : List CallFrame → Prop) (host : Host) : Prop where
  native : ∀ name args, (host.native name args).Passes T
  callMember : ∀ {m bridge}, host.bridgeOn m = some bridge →
    ∀ type handle member args, FaultIn T (bridge.callMember type handle member args)
  readField : ∀ {m bridge}, host.bridgeOn m = some bridge →
    ∀ type handle member, FaultIn T (bridge.readField type handle member)
  fallback : ∀ {m handler}, host.fallbackOn m = some handler →
    ∀ {callee args r}, handler callee args = some r → FaultIn T r

/-- The builtins that every interpreter starts with call nothing. -/
theorem CoreNative.passes_action (T : List CallFrame → Prop) (c : CoreNative) (args : List Value) :
    (c.action args).Passes T := by
  rcases c.action_cases args with ⟨v, h⟩ | ⟨cause, h⟩ | ⟨text, v, h⟩ | ⟨next, h⟩
  · rw [h]; trivial
  · rw [h]; exact Fault.traceIn_of_none rfl
  · rw [h]; trivial
  · rw [h]; exact fun _ _ _ => trivial

/-- A property of traces that those have which calls attach, and that is kept on the way out. -/
structure Tracing (s : Setting) where
  /-- traces of faults in code that runs on these calls -/
  allowed : Stack CallFrame → List CallFrame → Prop
  capture : ∀ calls, allowed calls (CallFrame.capture calls s.limits.traceLimit)
  outward : ∀ {calls call t}, allowed (calls.push call) t → allowed calls t
  host : ∀ calls, s.host.Passes (allowed calls)

/-- On top of the evidence of whoever called it a closure has what it captured, and on top of both
what its declared result tells while they are in force. -/
structure Closure.Opened (c : Closure) (scope : ScopeId) (m : Machine) : Prop where
  evidence : ∃ (below : WitnessStack) (t : Machine), t.store = m.store ∧
    t.witnesses.toList = below.toList ++ c.witnesses.toList ∧
    m.witnesses.toList = t.witnesses.toList ++ (t.returnWitness c scope).toList

/-- What holds where something is about to happen. -/
def Event.Sound : Event → Machine → Prop
  | body c scope, m => c.Opened scope m
  | native b args, _ => b.Takes args
  | overflow _, _ | dispatch _, _ | depths, _ | limits, _ => True

def Halt.Sound : Halt → Prop
  | outOfFuel => True
  | breakpoint e m => e.Sound m

/-- A computation ended on calls that satisfy `K`, if with a fault then with an allowed trace, or it
was stopped in a sound place. -/
def Outcome.Traced {α : Type} (T : Stack CallFrame → List CallFrame → Prop)
    (K : Stack CallFrame → Prop) : Outcome α → Prop
  | .done _ m => K m.calls
  | .failed f m => K m.calls ∧ f.TraceIn (T m.calls)
  | .halted why => why.Sound

namespace Run

variable {α β : Type} {s : Setting} {T : Tracing s} {K : Stack CallFrame → Prop}

/-- Started on calls that satisfy `K`, the computation ends on such calls, a fault has a trace that
is allowed there, and a debugger stops it in sound places only. -/
def Traced (T : Tracing s) (K : Stack CallFrame → Prop) (x : Run α) : Prop :=
  ∀ m, K m.calls → (x s m).Traced T.allowed K

namespace Traced

/-- A computation that is traced wherever it starts. -/
theorem of_each {x : Run α} (h : ∀ calls, K calls → x.Traced T (· = calls)) : x.Traced T K := by
  intro m hm
  have hx := h m.calls hm m rfl
  cases hxm : x s m with
  | done a m' =>
    rw [hxm] at hx
    have hcalls : m'.calls = m.calls := hx
    show K m'.calls
    rwa [hcalls]
  | failed f m' =>
    rw [hxm] at hx
    obtain ⟨hcalls, hf⟩ := hx
    refine ⟨?_, hf⟩
    show K m'.calls
    rwa [hcalls]
  | halted why =>
    rw [hxm] at hx
    exact hx

/-- A step that cannot fail and leaves the calls alone. -/
theorem of_done {x : Run α} (h : ∀ m, ∃ a m', x s m = .done a m' ∧ m'.calls = m.calls) :
    x.Traced T K := by
  intro m hm
  obtain ⟨a, m', hx, hcalls⟩ := h m
  rw [hx]
  show K m'.calls
  rwa [hcalls]

theorem pure (a : α) : (pure a : Run α).Traced T K := of_done fun m => ⟨a, m, rfl, rfl⟩

theorem throw {f : Fault} (h : ∀ calls, K calls → f.TraceIn (T.allowed calls)) :
    (throw f : Run α).Traced T K := fun m hm => ⟨hm, h m.calls hm⟩

theorem fail (cause : Cause) : (fail cause : Run α).Traced T K :=
  throw fun _ _ => Fault.traceIn_of_none rfl

theorem machine : Run.machine.Traced T K := of_done fun m => ⟨m, m, rfl, rfl⟩

theorem outOfFuel : (outOfFuel : Run α).Traced T K := fun _ _ => trivial

theorem modify {f : Machine → Machine} (hf : ∀ m, (f m).calls = m.calls) :
    (modify f).Traced T K := of_done fun m => ⟨(), f m, rfl, hf m⟩

theorem fresh : fresh.Traced T K := of_done fun _ => ⟨_, _, rfl, rfl⟩

theorem newScope (parent : ScopeId) : (newScope parent).Traced T K :=
  of_done fun _ => ⟨_, _, rfl, rfl⟩

theorem define (scope : ScopeId) (name : String) (v : Value) :
    (define scope name v).Traced T K := modify fun _ => rfl

theorem lookup (scope : ScopeId) (name : String) : (lookup scope name).Traced T K := by
  intro m hm
  unfold Run.lookup
  split
  · exact hm
  · exact ⟨hm, Fault.traceIn_of_none rfl⟩

theorem assign (scope : ScopeId) (name : String) (v : Value) :
    (assign scope name v).Traced T K := by
  intro m hm
  unfold Run.assign
  split
  · exact hm
  · exact ⟨hm, Fault.traceIn_of_none rfl⟩

theorem reach_at {e : Event} {m : Machine} (he : e.Sound m) (hm : K m.calls) :
    (reach e s m).Traced T.allowed K := by
  unfold Run.reach
  split
  · exact he
  · exact hm

theorem reach {e : Event} (he : ∀ m, e.Sound m) : (reach e).Traced T K :=
  fun m hm => reach_at (he m) hm

theorem require (cause : Cause) (o : Option α) : (require cause o).Traced T K := by
  cases o with
  | some a => exact pure a
  | none => exact fail cause

theorem ofExcept {r : Except Fault α} (h : ∀ calls, FaultIn (T.allowed calls) r) :
    (ofExcept r).Traced T K := by
  cases r with
  | ok a => exact pure a
  | error f => exact throw fun calls _ => h calls f rfl

theorem ofCause (r : Except Cause α) : (ofCause r).Traced T K := by
  cases r with
  | ok a => exact pure a
  | error cause => exact fail cause

/-- What the first computation left may be used. -/
theorem bind_at {x : Run α} {f : α → Run β} {m : Machine} (hx : (x s m).Traced T.allowed K)
    (hf : ∀ a m₁, x s m = .done a m₁ → K m₁.calls → (f a s m₁).Traced T.allowed K) :
    ((x >>= f) s m).Traced T.allowed K := by
  show (Run.bind x f s m).Traced T.allowed K
  unfold Run.bind
  cases hxm : x s m with
  | done a m₁ =>
    rw [hxm] at hx
    exact hf a m₁ hxm hx
  | failed e m₁ =>
    rw [hxm] at hx
    exact hx
  | halted why =>
    rw [hxm] at hx
    exact hx

theorem bind {x : Run α} {f : α → Run β} (hx : x.Traced T K) (hf : ∀ a, (f a).Traced T K) :
    (x >>= f).Traced T K :=
  fun m hm => bind_at (hx m hm) fun a m₁ _ hm₁ => hf a m₁ hm₁

/-- The setting is the one of the run. -/
theorem setting {f : Setting → Run β} (hf : (f s).Traced T K) :
    (Run.setting >>= f).Traced T K := hf

/-- The bridge and the handler are those of the host. -/
theorem bridge_bind {f : Option Bridge → Run β} (hf : ∀ m, (f (s.host.bridgeOn m)).Traced T K) :
    (Run.bridge >>= f).Traced T K :=
  fun m hm => hf m m hm

theorem fallback_bind {f : Option FallbackHandler → Run β}
    (hf : ∀ m, (f (s.host.fallbackOn m)).Traced T K) : (Run.fallback >>= f).Traced T K :=
  fun m hm => hf m m hm

theorem mapFault {x : Run α} {g : Fault → Fault} (hg : ∀ f, (g f).trace = f.trace)
    (hx : x.Traced T K) : (mapFault g x).Traced T K := by
  intro m hm
  have hends := hx m hm
  unfold Run.mapFault
  cases hxm : x s m with
  | done a m₁ =>
    rw [hxm] at hends
    exact hends
  | failed e m₁ =>
    rw [hxm] at hends
    exact ⟨hends.1, hends.2.of_trace_eq (hg e)⟩
  | halted why =>
    rw [hxm] at hends
    exact hends

/-- A position does not count. -/
theorem locate {x : Run α} (span : Span) (hx : x.Traced T K) :
    (Run.mapFault (·.orLocation span) x).Traced T K :=
  mapFault (fun f => f.trace_orLocation span) hx

/-- Whoever catches a fault gets an allowed trace. -/
theorem attempt_bind {calls : Stack CallFrame} {x : Run α} {f : Except Fault α → Run β}
    (hx : x.Traced T (· = calls))
    (hf : ∀ r, FaultIn (T.allowed calls) r → (f r).Traced T (· = calls)) :
    (attempt x >>= f).Traced T (· = calls) := by
  intro m hm
  have hends := hx m hm
  show (Run.bind (Run.attempt x) f s m).Traced T.allowed (· = calls)
  unfold Run.bind Run.attempt
  cases hxm : x s m with
  | done a m₁ =>
    rw [hxm] at hends
    exact hf (.ok a) (fun _ h => by cases h) m₁ hends
  | failed e m₁ =>
    rw [hxm] at hends
    obtain ⟨hcalls, he⟩ := hends
    have hcaught : FaultIn (T.allowed calls) (.error e : Except Fault α) := by
      intro e' heq
      cases heq
      rwa [← show m₁.calls = calls from hcalls]
    exact hf (.error e) hcaught m₁ hcalls
  | halted why =>
    rw [hxm] at hends
    exact hends

theorem attempt {x : Run α} (hx : x.Traced T K) : (attempt x).Traced T K := by
  intro m hm
  have hends := hx m hm
  unfold Run.attempt
  cases hxm : x s m with
  | done a m₁ =>
    rw [hxm] at hends
    exact hends
  | failed e m₁ =>
    rw [hxm] at hends
    exact hends.1
  | halted why =>
    rw [hxm] at hends
    exact hends

/-- Work on the other stacks does not count. -/
theorem ensuring {x : Run α} {m : Machine} {tidy : Machine → Machine}
    (hx : (x s m).Traced T.allowed K) (htidy : ∀ m', (tidy m').calls = m'.calls) :
    (ensuring tidy x s m).Traced T.allowed K := by
  unfold Run.ensuring
  cases hxm : x s m with
  | done a m₁ =>
    rw [hxm] at hx
    show K (tidy m₁).calls
    rw [htidy]
    exact hx
  | failed e m₁ =>
    rw [hxm] at hx
    show K (tidy m₁).calls ∧ e.TraceIn (T.allowed (tidy m₁).calls)
    rw [htidy]
    exact hx
  | halted why =>
    rw [hxm] at hx
    exact hx

theorem withExpected {x : Run α} (t : Ty) (hx : x.Traced T K) : (withExpected t x).Traced T K :=
  fun _ hm => ensuring (hx _ hm) fun _ => rfl

theorem withContainer {x : Run α} (name : String) (hx : x.Traced T K) :
    (withContainer name x).Traced T K := fun _ hm => ensuring (hx _ hm) fun _ => rfl

theorem keepingWitnesses {x : Run α} (hx : x.Traced T K) : (keepingWitnesses x).Traced T K :=
  fun m hm => ensuring (hx m hm) fun _ => rfl

theorem defineAll (scope : ScopeId) (bindings : List (String × Value)) :
    (defineAll scope bindings).Traced T K := by
  induction bindings with
  | nil => exact pure ()
  | cons b rest ih => exact bind (define scope b.1 b.2) fun _ => ih

theorem matchInto (scope : ScopeId) (p : Pattern) (v : Value) :
    (p.matchInto scope v).Traced T K := by
  rw [Pattern.matchInto_eq]
  exact bind (defineAll scope _) fun _ => pure _

/-- An application that is traced, whatever it is given. -/
def Always (T : Tracing s) (a : Apply) : Prop :=
  ∀ callee args site (K : Stack CallFrame → Prop), (a callee args site).Traced T K

variable {a : Apply}

theorem settled {x : Run Step} (ha : Always T a) (hx : x.Traced T K) :
    (settled a x).Traced T K := by
  refine bind hx fun step => ?_
  cases step with
  | done v => exact pure v
  | tail callee args site => exact ha callee args site K

theorem finishCall (ha : Always T a) (ctx : EvalCtx) (callee : Value) (args : List Value)
    (site : CallSite) : (finishCall a ctx callee args site).Traced T K := by
  unfold Run.finishCall
  split
  · exact pure _
  · exact bind (ha callee args site K) fun v => pure _

theorem callMember (ha : Always T a) (ctx : EvalCtx) (scope : ScopeId) (recv : Value)
    (method : String) (args : List Value) (site : CallSite) :
    (callMember a ctx scope recv method args site).Traced T K := by
  have member : (do
      let fn ← Run.lookup scope method
      Run.finishCall a ctx (.bound (← Run.machine).nextIdent fn recv) args site).Traced T K :=
    bind (lookup scope method) fun fn => bind machine fun m => finishCall ha ctx _ args site
  unfold Run.callMember
  split
  · refine bridge_bind fun m => ?_
    split
    · exact fail _
    · rename_i bridge hbridge
      exact bind (ofExcept fun calls => (T.host calls).callMember hbridge _ _ method args)
        fun v => pure _
  · split
    · exact finishCall ha ctx _ args site
    · exact member

theorem readField (v : Value) (field : String) : (readField v field).Traced T K := by
  unfold Run.readField
  split
  · refine bridge_bind fun m => ?_
    split
    · exact fail _
    · rename_i bridge hbridge
      exact ofExcept fun calls => (T.host calls).readField hbridge _ _ field
  · exact ofCause _

theorem asBool (v : Value) : v.asBool.Traced T K := by
  unfold Value.asBool
  split
  · exact pure _
  · exact fail _

theorem buildDictionary (traitName : String) (key : TypeKey) :
    (buildDictionary traitName key).Traced T K := by
  intro m hm
  unfold Run.buildDictionary
  split
  · exact hm
  · exact ⟨hm, Fault.traceIn_of_none rfl⟩

theorem bindSource (ha : Always T a) (scope : ScopeId) (source : Value) (name : String)
    (rest : List DoBind) (body : Spanned Expr) (span : Span) :
    (bindSource a scope source name rest body span).Traced T K :=
  withContainer _ (bind (lookup scope _) fun _ => bind fresh fun _ => ha _ _ _ K)

mutual

theorem node (ha : Always T a) (ctx : EvalCtx) (scope : ScopeId) :
    ∀ e : Spanned Expr, (evalNode a ctx scope e).Traced T K
  | ⟨e, span⟩ => by
    rw [evalNode]
    exact locate span (form ha ctx scope span e)

theorem form (ha : Always T a) (ctx : EvalCtx) (scope : ScopeId) (span : Span) :
    ∀ e : Expr, (evalForm a ctx scope span e).Traced T K
  | .lit l => by rw [evalForm]; exact pure _
  | .var name => by rw [evalForm]; exact bind (lookup scope name) fun v => pure _
  | .list items | .tuple items => by
    rw [evalForm]
    exact bind (all ha scope items) fun vs => pure _
  | .record entries => by
    rw [evalForm]
    exact bind (fields ha scope entries []) fun fs => pure _
  | .range start stop => by
    rw [evalForm]
    have hstart := settled ha (node ha {} scope start)
    have hstop := settled ha (node ha {} scope stop)
    exact bind hstart fun first => bind hstop fun last => bind (ofCause _) fun v => pure _
  | .lambda f => by
    rw [evalForm]
    exact bind machine fun m => bind fresh fun id => pure _
  | .call id callee args => by
    rw [evalForm]
    refine bind (settled ha (node ha {} scope callee)) fun fn => ?_
    exact bind (all ha scope args) fun vals => finishCall ha ctx fn vals _
  | .methodCall id receiver method args => by
    rw [evalForm]
    refine bind (settled ha (node ha {} scope receiver)) fun recv => ?_
    exact bind (all ha scope args) fun vals => callMember ha ctx scope recv _ vals _
  | .field target name => by
    rw [evalForm]
    refine bind (settled ha (node ha {} scope target)) fun v => ?_
    exact bind (readField v name) fun w => pure _
  | .binary left op right => by
    rw [evalForm]
    have hright := settled ha (node ha {} scope right)
    refine bind (settled ha (node ha {} scope left)) fun l => ?_
    split
    · refine bind (asBool l) fun b => ?_
      split
      · exact bind hright fun r => bind (asBool r) fun b' => pure _
      · exact pure _
    · exact bind hright fun r => bind (ofCause _) fun v => pure _
  | .unary op operand => by
    rw [evalForm]
    refine bind (settled ha (node ha {} scope operand)) fun v => ?_
    exact bind (ofCause _) fun w => pure _
  | .operator op => by rw [evalForm]; exact pure _
  | .compose outer inner => by
    rw [evalForm]
    have houter := settled ha (node ha {} scope outer)
    have hinner := settled ha (node ha {} scope inner)
    exact bind houter fun f => bind hinner fun g => bind fresh fun id => pure _
  | .cond test yes no => by
    rw [evalForm]
    refine bind (settled ha (node ha {} scope test)) fun v => bind (asBool v) fun b => ?_
    split
    · exact node ha ctx scope yes
    · exact node ha ctx scope no
  | .letIn name ty value body => by
    rw [evalForm]
    refine bind (settled ha (node ha _ scope value)) fun v => bind (newScope scope) fun inner => ?_
    exact bind (define inner name v) fun _ => node ha ctx inner body
  | .block [] => by rw [evalForm]; exact pure _
  | .block (e :: es) => by
    rw [evalForm]
    exact bind (newScope scope) fun inner => seq ha ctx inner (e :: es)
  | .assign name value => by
    rw [evalForm]
    refine bind (settled ha (node ha {} scope value)) fun v => ?_
    exact bind (assign scope name v) fun _ => pure _
  | .annotated e ty => by
    rw [evalForm]
    refine bind machine fun m => ?_
    exact bind (withExpected _ (settled ha (node ha _ scope e))) fun v => pure _
  | .choose scrutinee branches => by
    rw [evalForm]
    refine bind (settled ha (node ha {} scope scrutinee)) fun v => ?_
    exact arms ha ctx scope v branches
  | .dict traitName types => by
    unfold evalForm
    split
    · exact bind fresh fun id => pure _
    · exact bind (buildDictionary traitName _) fun d => pure _
  | .doChain [] body => by
    rw [evalForm]
    exact bind (settled ha (node ha {} scope body)) fun v => pure _
  | .doChain (⟨name, value⟩ :: rest) body => by
    rw [evalForm]
    refine bind (settled ha (node ha {} scope value)) fun source => ?_
    exact bind (bindSource ha scope source name rest body _) fun v => pure _
  | .attempt body => by
    rw [evalForm]
    refine bind (attempt (settled ha (node ha {} scope body))) fun r => ?_
    cases r with
    | ok v => exact pure _
    | error f => exact bind fresh fun id => pure _

theorem all (ha : Always T a) (scope : ScopeId) :
    ∀ es : List (Spanned Expr), (evalAll a scope es).Traced T K
  | [] => by rw [evalAll]; exact pure _
  | e :: es => by
    rw [evalAll]
    refine bind (settled ha (node ha {} scope e)) fun v => ?_
    exact bind (all ha scope es) fun vs => pure _

theorem fields (ha : Always T a) (scope : ScopeId) :
    ∀ (es : List (String × Spanned Expr)) (done : List (String × Value)),
      (evalFields a scope done es).Traced T K
  | [], done => by rw [evalFields]; exact pure _
  | (name, e) :: es, done => by
    rw [evalFields]
    refine bind (settled ha (node ha {} scope e)) fun v => ?_
    exact fields ha scope es _

theorem seq (ha : Always T a) (ctx : EvalCtx) (scope : ScopeId) :
    ∀ es : List (Spanned Expr), (evalSeq a ctx scope es).Traced T K
  | [] => by rw [evalSeq]; exact pure _
  | [e] => by rw [evalSeq]; exact node ha ctx scope e
  | e :: e' :: es => by
    rw [evalSeq]
    refine bind (bind (settled ha (node ha {} scope e)) fun v => pure _) fun _ => ?_
    exact seq ha ctx scope (e' :: es)

theorem arms (ha : Always T a) (ctx : EvalCtx) (scope : ScopeId) (v : Value) :
    ∀ as : List Arm, (evalArms a ctx scope v as).Traced T K
  | [] => by rw [evalArms]; exact fail _
  | ⟨pattern, body⟩ :: as => by
    rw [evalArms]
    refine bind (newScope scope) fun inner =>
      bind (matchInto inner pattern.node v) fun matched => ?_
    split
    · exact node ha ctx inner body
    · exact arms ha ctx scope v as

end

end Traced

end Run

end TraitLang
