import TraitLang.Proofs.PositionlessDispatch

/-!
Runs without positions. A computation forgets into another one if, on any machine, the other one
does without positions what it does: it ends alike and leaves the same machine, up to positions.
Main statement: evaluating an expression forgets into evaluating it without positions, if the ways
to apply callables do.
-/
namespace TraitLang

section Hosts

variable {α β : Type}

/-- A result without positions. -/
def forgetResult (f : α → β) : Except Fault α → Except Fault β
  | .ok a => .ok (f a)
  | .error e => .error e.forget

/-- What a native function does, without positions. -/
def Action.forget : Action → Action
  | .done v => .done v.forget
  | .fail f => .fail f.forget
  | .write text next => .write text next.forget
  | .fresh next => .fresh fun id => (next id).forget
  | .depths next => .depths fun calls witnesses types => (next calls witnesses types).forget
  | .limits next => .limits fun l => (next l).forget
  | .look next => .look fun r st => (next r st).forget
  | .newScope parent next => .newScope parent fun id => (next id).forget
  | .define scope name v next => .define scope name v.forget next.forget
  | .assign scope name v next => .assign scope name v.forget fun bound => (next bound).forget
  | .apply callee args site next =>
    .apply callee.forget (args.map Value.forget) site.forget fun r => (next r).forget
  | .call name args next => .call name (args.map Value.forget) fun r => (next r).forget
  | .eval e next => .eval (forgetNode e) fun r => (next r).forget
  | .resolve method args site next =>
    .resolve method (args.map Value.forget) site.forget fun r => (next r).forget
  | .load p next => .load p.forget fun r => (next r).forget
  | .register r next => .register r.forget next.forget

/-- Native functions that do the same up to positions, as long as they get the same answers up to
positions. -/
inductive Action.Agrees : Action → Action → Prop where
  | done {v v' : Value} : v.forget = v'.forget → Agrees (.done v) (.done v')
  | fail {f f' : Fault} : f.forget = f'.forget → Agrees (.fail f) (.fail f')
  | write (text : String) {next next' : Action} : Agrees next next' →
      Agrees (.write text next) (.write text next')
  | fresh {next next' : Ident → Action} : (∀ id, Agrees (next id) (next' id)) →
      Agrees (.fresh next) (.fresh next')
  | depths {next next' : Nat → Nat → Nat → Action} : (∀ i j k, Agrees (next i j k) (next' i j k)) →
      Agrees (.depths next) (.depths next')
  | limits {next next' : Limits → Action} :
      (∀ l l' : Limits, l.forget = l'.forget → Agrees (next l) (next' l')) →
      Agrees (.limits next) (.limits next')
  | look {next next' : Registry → Store → Action} :
      (∀ (r r' : Registry) (st st' : Store), r.forget = r'.forget →
        st.relabel positions = st'.relabel positions → Agrees (next r st) (next' r' st')) →
      Agrees (.look next) (.look next')
  | newScope (parent : ScopeId) {next next' : ScopeId → Action} :
      (∀ id, Agrees (next id) (next' id)) → Agrees (.newScope parent next) (.newScope parent next')
  | define (scope : ScopeId) (name : String) {v v' : Value} {next next' : Action} :
      v.forget = v'.forget → Agrees next next' →
      Agrees (.define scope name v next) (.define scope name v' next')
  | assign (scope : ScopeId) (name : String) {v v' : Value} {next next' : Bool → Action} :
      v.forget = v'.forget → (∀ bound, Agrees (next bound) (next' bound)) →
      Agrees (.assign scope name v next) (.assign scope name v' next')
  | apply {callee callee' : Value} {args args' : List Value} {site site' : CallSite}
      {next next' : Except Fault Value → Action} : callee.forget = callee'.forget →
      args.map Value.forget = args'.map Value.forget → site.forget = site'.forget →
      (∀ r r', forgetResult Value.forget r = forgetResult Value.forget r' →
        Agrees (next r) (next' r')) →
      Agrees (.apply callee args site next) (.apply callee' args' site' next')
  | call (name : String) {args args' : List Value} {next next' : Except Fault Value → Action} :
      args.map Value.forget = args'.map Value.forget →
      (∀ r r', forgetResult Value.forget r = forgetResult Value.forget r' →
        Agrees (next r) (next' r')) →
      Agrees (.call name args next) (.call name args' next')
  | eval {e e' : Spanned Expr} {next next' : Except Fault Value → Action} :
      forgetNode e = forgetNode e' →
      (∀ r r', forgetResult Value.forget r = forgetResult Value.forget r' →
        Agrees (next r) (next' r')) →
      Agrees (.eval e next) (.eval e' next')
  | resolve (method : ClassMethod) {args args' : List Value} {site site' : CallSite}
      {next next' : Except Fault Resolution → Action} :
      args.map Value.forget = args'.map Value.forget → site.forget = site'.forget →
      (∀ r r', forgetResult Resolution.forget r = forgetResult Resolution.forget r' →
        Agrees (next r) (next' r')) →
      Agrees (.resolve method args site next) (.resolve method args' site' next')
  | load {p p' : AnalyzedProgram} {next next' : Except Fault Unit → Action} :
      p.forget = p'.forget →
      (∀ r r', forgetResult id r = forgetResult id r' → Agrees (next r) (next' r')) →
      Agrees (.load p next) (.load p' next')
  | register {r r' : Registration} {next next' : Action} : r.forget = r'.forget →
      Agrees next next' → Agrees (.register r next) (.register r' next')

/-- Nothing that the host supplies looks at positions. -/
structure Host.IgnoresPositions (h : Host) : Prop where
  native : ∀ name {args args'}, args.map Value.forget = args'.map Value.forget →
    (h.native name args).Agrees (h.native name args')
  member : ∀ {m}, ∀ bridge ∈ h.bridgeOn m, ∀ type handle name {args args'},
    args.map Value.forget = args'.map Value.forget →
    forgetResult Value.forget (bridge.callMember type handle name args) =
      forgetResult Value.forget (bridge.callMember type handle name args')
  fallback : ∀ {m}, ∀ handler ∈ h.fallbackOn m, ∀ {v v' args args'}, v.forget = v'.forget →
    args.map Value.forget = args'.map Value.forget →
    (handler v args).map (forgetResult Value.forget) =
      (handler v' args').map (forgetResult Value.forget)

def Bridge.forget (b : Bridge) : Bridge where
  callMember type handle name args := forgetResult Value.forget (b.callMember type handle name args)
  readField type handle name := forgetResult Value.forget (b.readField type handle name)

def FallbackHandler.forget (handler : FallbackHandler) : FallbackHandler :=
  fun v args => (handler v args).map (forgetResult Value.forget)

def Host.forget (h : Host) : Host where
  native name args := (h.native name args).forget
  bridge := h.bridge.map Bridge.forget
  fallback := h.fallback.map FallbackHandler.forget
  bridges name := (h.bridges name).map Bridge.forget
  fallbacks name := (h.fallbacks name).map FallbackHandler.forget

theorem Host.bridgeOn_forget (h : Host) (m : Machine) :
    h.forget.bridgeOn m.forget = (h.bridgeOn m).map Bridge.forget := by
  show m.bridge.elim h.forget.bridge h.forget.bridges = (m.bridge.elim h.bridge h.bridges).map _
  cases m.bridge <;> rfl

theorem Host.fallbackOn_forget (h : Host) (m : Machine) :
    h.forget.fallbackOn m.forget = (h.fallbackOn m).map FallbackHandler.forget := by
  show m.fallback.elim h.forget.fallback h.forget.fallbacks =
    (m.fallback.elim h.fallback h.fallbacks).map _
  cases m.fallback <;> rfl

end Hosts

/-- A setting without positions, in which no call traces are kept. -/
def Setting.forget (s : Setting) : Setting where
  limits := s.limits.forget
  host := s.host.forget

/-- The host does not look at positions, and no debugger stops the run. -/
structure Setting.IgnoresPositions (s : Setting) : Prop where
  host : s.host.IgnoresPositions
  unwatched : ∀ e m, s.breakpoint e m = false

/-- How a run ended, without positions. -/
def Outcome.forget {α β : Type} (f : α → β) : Outcome α → Outcome β
  | .done a m => .done (f a) m.forget
  | .failed e m => .failed e.forget m.forget
  | .halted _ => .halted .outOfFuel

def Step.forget : Step → Step
  | .done v => .done v.forget
  | .tail callee args site => .tail callee.forget (args.map Value.forget) site.forget

/-- The computation `x'` does without positions what `x` does. -/
def Run.Forgets {α β : Type} (s : Setting) (f : α → β) (x : Run α) (x' : Run β) : Prop :=
  ∀ m : Machine, x' s.forget m.forget = (x s m).forget f

/-- One way to apply callables forgets into another. -/
def Apply.Forgets (s : Setting) (a a' : Apply) : Prop :=
  ∀ callee args site, Run.Forgets s Value.forget (a callee args site)
    (a' callee.forget (args.map Value.forget) site.forget)

namespace Run.Forgets

variable {α β γ δ : Type} {s : Setting} {f : α → β} {g : γ → δ}

theorem pure {a : α} {b : β} (h : f a = b) : Forgets s f (pure a) (pure b) := by
  intro m
  show Outcome.done b m.forget = .done (f a) m.forget
  rw [h]

theorem throw {e e' : Fault} (h : e.forget = e') : Forgets s f (Run.throw e) (Run.throw e') := by
  intro m
  show Outcome.failed e' m.forget = .failed e.forget m.forget
  rw [h]

theorem fail (cause : Cause) : Forgets s f (Run.fail cause) (Run.fail cause) := throw rfl

theorem outOfFuel : Forgets s f Run.outOfFuel Run.outOfFuel := fun _ => rfl

theorem bind {x : Run α} {x' : Run β} {k : α → Run γ} {k' : β → Run δ} (hx : Forgets s f x x')
    (hk : ∀ a, Forgets s g (k a) (k' (f a))) : Forgets s g (x >>= k) (x' >>= k') := by
  intro m
  show Run.bind x' k' s.forget m.forget = (Run.bind x k s m).forget g
  unfold Run.bind
  rw [hx m]
  cases x s m with
  | done a m₁ => exact hk a m₁
  | failed e m₁ => rfl
  | halted why => rfl

theorem mapFault {x : Run α} {x' : Run β} {e e' : Fault → Fault} (hx : Forgets s f x x')
    (he : ∀ fault, (e fault).forget = e' fault.forget) :
    Forgets s f (Run.mapFault e x) (Run.mapFault e' x') := by
  intro m
  unfold Run.mapFault
  rw [hx m]
  cases x s m with
  | done a m₁ => rfl
  | failed fault m₁ =>
    show Outcome.failed (e' fault.forget) m₁.forget = .failed (e fault).forget m₁.forget
    rw [he]
  | halted why => rfl

/-- The position of a node makes no difference. -/
theorem located {x : Run α} {x' : Run β} (span : Span) (hx : Forgets s f x x') :
    Forgets s f (Run.mapFault (·.orLocation span) x) (Run.mapFault (·.orLocation {}) x') :=
  mapFault hx fun fault => by rw [Fault.forget_orLocation, Fault.forget_orLocation_unknown]

theorem attempt {x : Run α} {x' : Run β} (hx : Forgets s f x x') :
    Forgets s (forgetResult f) (Run.attempt x) (Run.attempt x') := by
  intro m
  unfold Run.attempt
  rw [hx m]
  cases x s m <;> rfl

theorem setting_bind {k : Setting → Run γ} {k' : Setting → Run δ}
    (hk : Forgets s g (k s) (k' s.forget)) :
    Forgets s g (Run.setting >>= k) (Run.setting >>= k') :=
  fun m => hk m

theorem machine_bind {k : Machine → Run γ} {k' : Machine → Run δ}
    (hk : ∀ m : Machine, Forgets s g (k m) (k' m.forget)) :
    Forgets s g (Run.machine >>= k) (Run.machine >>= k') :=
  fun m => hk m m

/-- Without positions the host has the same bridges and handlers, without positions. -/
theorem bridge_bind {k : Option Bridge → Run γ} {k' : Option Bridge → Run δ}
    (hk : ∀ m, Forgets s g (k (s.host.bridgeOn m)) (k' ((s.host.bridgeOn m).map Bridge.forget))) :
    Forgets s g (Run.bridge >>= k) (Run.bridge >>= k') := by
  intro m
  show k' (s.host.forget.bridgeOn m.forget) s.forget m.forget = _
  rw [Host.bridgeOn_forget]
  exact hk m m

theorem fallback_bind {k : Option FallbackHandler → Run γ} {k' : Option FallbackHandler → Run δ}
    (hk : ∀ m, Forgets s g (k (s.host.fallbackOn m))
      (k' ((s.host.fallbackOn m).map FallbackHandler.forget))) :
    Forgets s g (Run.fallback >>= k) (Run.fallback >>= k') := by
  intro m
  show k' (s.host.forget.fallbackOn m.forget) s.forget m.forget = _
  rw [Host.fallbackOn_forget]
  exact hk m m

theorem fresh_bind {k : Ident → Run γ} {k' : Ident → Run δ}
    (hk : ∀ id, Forgets s g (k id) (k' id)) :
    Forgets s g (Run.fresh >>= k) (Run.fresh >>= k') :=
  fun m => hk m.nextIdent { m with nextIdent := m.nextIdent + 1 }

theorem newScope_bind {k : ScopeId → Run γ} {k' : ScopeId → Run δ} (parent : ScopeId)
    (hk : ∀ id, Forgets s g (k id) (k' id)) :
    Forgets s g (Run.newScope parent >>= k) (Run.newScope parent >>= k') := by
  intro m
  have h := hk m.store.scopes.size { m with store := (m.store.child parent).1 }
  have hstore : ({ m with store := (m.store.child parent).1 } : Machine).forget =
      { m.forget with store := ((m.store.relabel positions).child parent).1 } := by
    rw [← Store.relabel_child]
    rfl
  rw [hstore] at h
  show k' (m.store.relabel positions).scopes.size s.forget _ = _
  rw [Store.size_relabel]
  exact h

theorem lookup (scope : ScopeId) (name : String) :
    Forgets s Value.forget (Run.lookup scope name) (Run.lookup scope name) := by
  intro m
  have hget : m.forget.store.get? scope name = (m.store.get? scope name).map Value.forget :=
    Store.get?_relabel positions m.store scope name
  unfold Run.lookup
  rw [hget]
  cases m.store.get? scope name <;> rfl

theorem modify {change change' : Machine → Machine}
    (h : ∀ m, (change m).forget = change' m.forget) :
    Forgets s id (Run.modify change) (Run.modify change') := by
  intro m
  show Outcome.done () (change' m.forget) = .done () (change m).forget
  rw [h]

theorem define (scope : ScopeId) (name : String) (v : Value) :
    Forgets s id (Run.define scope name v) (Run.define scope name v.forget) :=
  modify fun m => by simp only [Machine.forget, Store.relabel_define]

theorem assign (scope : ScopeId) (name : String) (v : Value) :
    Forgets s id (Run.assign scope name v) (Run.assign scope name v.forget) := by
  intro m
  have howner : m.forget.store.owner? scope name = m.store.owner? scope name :=
    Store.owner?_relabel positions m.store scope name
  cases howner' : m.store.owner? scope name with
  | none =>
    rw [Run.assign_of_no_owner howner', Run.assign_of_no_owner (howner.trans howner')]
    rfl
  | some owner =>
    rw [Run.assign_of_owner howner', Run.assign_of_owner (howner.trans howner')]
    exact define (s := s) owner name v m

theorem defineAll (scope : ScopeId) (bindings : List (String × Value)) :
    Forgets s id (Run.defineAll scope bindings)
      (Run.defineAll scope (Assoc.mapValues Value.forget bindings)) := by
  induction bindings with
  | nil => exact pure rfl
  | cons b bindings ih => exact bind (define scope b.1 b.2) fun _ => ih

theorem matchInto (scope : ScopeId) (p : Pattern) (v : Value) :
    Forgets s id (p.matchInto scope v) (p.matchInto scope v.forget) := by
  rw [Pattern.matchInto_eq, Pattern.matchInto_eq, Pattern.written_relabel,
    Pattern.isSome_bindings?_relabel]
  exact bind (defineAll scope _) fun _ => pure rfl

theorem ofExcept (r : Except Fault α) :
    Forgets s f (Run.ofExcept r) (Run.ofExcept (forgetResult f r)) := by
  cases r with
  | ok a => exact pure rfl
  | error e => exact throw rfl

theorem ofCause (r : Except Cause α) :
    Forgets s f (Run.ofCause r) (Run.ofCause (r.map f)) := by
  cases r with
  | ok a => exact pure rfl
  | error cause => exact fail cause

theorem require (cause : Cause) (o : Option α) :
    Forgets s f (Run.require cause o) (Run.require cause (o.map f)) := by
  cases o with
  | none => exact fail cause
  | some a => exact pure rfl

theorem reach (hs : s.IgnoresPositions) (e e' : Event) :
    Forgets s id (Run.reach e) (Run.reach e') := by
  intro m
  have hs' : s.forget.breakpoint e' m.forget = false := rfl
  simp only [Run.reach, hs.unwatched, hs']
  rfl

theorem ensuring {x : Run α} {x' : Run β} {tidy tidy' : Machine → Machine} {p p' : Machine}
    (hx : Forgets s f x x') (hp : p.forget = p')
    (htidy : ∀ m : Machine, (tidy m).forget = tidy' m.forget) :
    Run.ensuring tidy' x' s.forget p' = (Run.ensuring tidy x s p).forget f := by
  unfold Run.ensuring
  rw [← hp, hx p]
  cases x s p with
  | done a m =>
    show Outcome.done (f a) (tidy' m.forget) = .done (f a) (tidy m).forget
    rw [htidy]
  | failed e m =>
    show Outcome.failed e.forget (tidy' m.forget) = .failed e.forget (tidy m).forget
    rw [htidy]
  | halted why => rfl

theorem withExpected (t : Ty) {x : Run α} {x' : Run β} (hx : Forgets s f x x') :
    Forgets s f (Run.withExpected t x) (Run.withExpected t x') :=
  fun _ => ensuring hx rfl fun _ => rfl

theorem withContainer (name : String) {x : Run α} {x' : Run β} (hx : Forgets s f x x') :
    Forgets s f (Run.withContainer name x) (Run.withContainer name x') :=
  fun _ => ensuring hx rfl fun _ => rfl

theorem keepingWitnesses {x : Run α} {x' : Run β} (hx : Forgets s f x x') :
    Forgets s f (Run.keepingWitnesses x) (Run.keepingWitnesses x') :=
  fun _ => ensuring hx rfl fun _ => rfl

section Evaluation

variable {a a' : Apply} (hs : s.IgnoresPositions) (ha : Apply.Forgets s a a')

include ha in
theorem settled {x x' : Run Step} (hx : Forgets s Step.forget x x') :
    Forgets s Value.forget (Run.settled a x) (Run.settled a' x') := by
  refine bind hx fun step => ?_
  cases step with
  | done v => exact pure rfl
  | tail callee args site => exact ha callee args site

include ha in
theorem finishCall (ctx : EvalCtx) (callee : Value) (args : List Value) (site : CallSite) :
    Forgets s Step.forget (Run.finishCall a ctx callee args site)
      (Run.finishCall a' ctx callee.forget (args.map Value.forget) site.forget) := by
  unfold Run.finishCall
  split
  · exact pure rfl
  · exact bind (ha callee args site) fun v => pure rfl

theorem sameMember (hs : s.IgnoresPositions) {m : Machine} {bridge : Bridge}
    (hbridge : s.host.bridgeOn m = some bridge) (type : String) (handle : Ident) (name : String)
    (args : List Value) :
    bridge.forget.callMember type handle name (args.map Value.forget) =
      forgetResult Value.forget (bridge.callMember type handle name args) :=
  hs.host.member bridge hbridge type handle name (map_forget_forget args)

include hs ha in
theorem callMember (ctx : EvalCtx) (scope : ScopeId) (recv : Value) (method : String)
    (args : List Value) (site : CallSite) :
    Forgets s Step.forget (Run.callMember a ctx scope recv method args site)
      (Run.callMember a' ctx scope recv.forget method (args.map Value.forget) site.forget) := by
  unfold Run.callMember
  rw [Value.foreign?_relabel]
  cases recv.foreign? with
  | some foreign =>
    refine bridge_bind fun m => ?_
    cases hbridge : s.host.bridgeOn m with
    | none => exact fail _
    | some bridge =>
      simp only [Option.map_some, sameMember hs hbridge]
      exact bind (ofExcept _) fun v => pure rfl
  | none =>
    rw [Value.member?_relabel]
    cases recv.member? method with
    | some callee => exact finishCall ha ctx callee args site
    | none =>
      refine bind (lookup scope method) fun fn => machine_bind fun m => ?_
      exact finishCall ha ctx (.bound m.nextIdent fn recv) args site

theorem readField (v : Value) (name : String) :
    Forgets s Value.forget (Run.readField v name) (Run.readField v.forget name) := by
  unfold Run.readField
  rw [Value.foreign?_relabel]
  cases v.foreign? with
  | some foreign =>
    refine bridge_bind fun m => ?_
    cases s.host.bridgeOn m with
    | none => exact fail _
    | some bridge => exact ofExcept _
  | none =>
    rw [Value.field_relabel]
    exact ofCause _

theorem asBool (v : Value) : Forgets s id v.asBool v.forget.asBool := by
  cases v with
  | bool b => exact pure rfl
  | _ => exact fail _

theorem buildDictionary (traitName : String) (key : TypeKey) :
    Forgets s Dictionary.forget (Run.buildDictionary traitName key)
      (Run.buildDictionary traitName key) := by
  intro m
  have hbuilt : m.forget.registry.dictionary? traitName key m.forget.nextIdent =
      (m.registry.dictionary? traitName key m.nextIdent).map fun built =>
        (built.1.forget, built.2) :=
    Registry.dictionary?_relabel positions m.registry key traitName m.nextIdent
  unfold Run.buildDictionary
  rw [hbuilt]
  cases m.registry.dictionary? traitName key m.nextIdent <;> rfl

include ha in
theorem bindSource (scope : ScopeId) (source : Value) (name : String) (rest : List DoBind)
    (body : Spanned Expr) (span : Span) :
    Forgets s Value.forget (Run.bindSource a scope source name rest body span)
      (Run.bindSource a' scope source.forget name (forgetBinds rest) (forgetNode body) {}) := by
  unfold Run.bindSource
  rw [Value.typeName_relabel]
  refine withContainer _ (bind (lookup scope "bind") fun fn => fresh_bind fun id => ?_)
  exact ha fn _ _

mutual

theorem node (hs : s.IgnoresPositions) (ha : Apply.Forgets s a a') (ctx : EvalCtx)
    (scope : ScopeId) : ∀ e : Spanned Expr,
      Forgets s Step.forget (evalNode a ctx scope e) (evalNode a' ctx scope (forgetNode e))
  | ⟨e, span⟩ => by
    rw [forgetNode, evalNode, evalNode]
    exact located span (form hs ha ctx scope span e)

theorem form (hs : s.IgnoresPositions) (ha : Apply.Forgets s a a') (ctx : EvalCtx)
    (scope : ScopeId) (span : Span) : ∀ e : Expr,
      Forgets s Step.forget (evalForm a ctx scope span e) (evalForm a' ctx scope {} e.forget)
  | .lit l => by
    rw [Expr.forget, evalForm, evalForm]
    exact pure (by rw [Step.forget, Value.forget, Value.relabel_ofLiteral])
  | .var name => by
    rw [Expr.forget, evalForm, evalForm]
    exact bind (lookup scope name) fun v => pure rfl
  | .list items | .tuple items => by
    rw [Expr.forget, evalForm, evalForm]
    exact bind (all hs ha scope items) fun vs => pure (by simp [Step.forget])
  | .record entries => by
    rw [Expr.forget, evalForm, evalForm]
    exact bind (fields hs ha scope [] entries) fun vs => pure (by simp [Step.forget])
  | .range start stop => by
    rw [Expr.forget, evalForm, evalForm]
    refine bind (settled ha (node hs ha {} scope start)) fun first => ?_
    refine bind (settled ha (node hs ha {} scope stop)) fun last => ?_
    rw [Value.upTo_relabel]
    exact bind (ofCause _) fun v => pure rfl
  | .lambda f => by
    rw [Expr.forget, evalForm, evalForm]
    exact machine_bind fun m => fresh_bind fun id => pure rfl
  | .call id callee args => by
    rw [Expr.forget, evalForm, evalForm]
    refine bind (settled ha (node hs ha {} scope callee)) fun fn => ?_
    refine bind (all hs ha scope args) fun vals => ?_
    rw [Value.callableName_relabel positions_lawful.name]
    obtain ⟨e, _⟩ := callee
    cases e <;> exact finishCall ha ctx fn vals _
  | .methodCall id receiver method args => by
    rw [Expr.forget, evalForm, evalForm]
    refine bind (settled ha (node hs ha {} scope receiver)) fun recv => ?_
    refine bind (all hs ha scope args) fun vals => ?_
    exact callMember hs ha ctx scope recv method vals _
  | .field target name => by
    rw [Expr.forget, evalForm, evalForm]
    refine bind (settled ha (node hs ha {} scope target)) fun v => ?_
    exact bind (readField v name) fun w => pure rfl
  | .binary left op right => by
    rw [Expr.forget, evalForm, evalForm]
    refine bind (settled ha (node hs ha {} scope left)) fun l => ?_
    have hright := settled ha (node hs ha {} scope right)
    split
    · refine bind (asBool l) fun b => ?_
      rw [id]
      split
      · exact bind hright fun r => bind (asBool r) fun b => pure rfl
      · exact pure rfl
    · refine bind hright fun r => ?_
      rw [BinOp.eval_relabel]
      exact bind (ofCause _) fun v => pure rfl
  | .unary op operand => by
    rw [Expr.forget, evalForm, evalForm]
    refine bind (settled ha (node hs ha {} scope operand)) fun v => ?_
    rw [UnOp.eval_relabel]
    exact bind (ofCause _) fun w => pure rfl
  | .operator op => by
    rw [Expr.forget, evalForm, evalForm]
    exact pure rfl
  | .compose outer inner => by
    rw [Expr.forget, evalForm, evalForm]
    refine bind (settled ha (node hs ha {} scope outer)) fun f => ?_
    refine bind (settled ha (node hs ha {} scope inner)) fun g => ?_
    exact fresh_bind fun id => pure rfl
  | .cond test yes no => by
    rw [Expr.forget, evalForm, evalForm]
    refine bind (settled ha (node hs ha {} scope test)) fun v => bind (asBool v) fun b => ?_
    rw [id]
    split
    · exact node hs ha ctx scope yes
    · exact node hs ha ctx scope no
  | .letIn name ty value body => by
    rw [Expr.forget, evalForm, evalForm]
    refine bind (settled ha (node hs ha _ scope value)) fun v => ?_
    refine newScope_bind scope fun inner => ?_
    exact bind (define inner name v) fun _ => node hs ha ctx inner body
  | .block [] => by
    rw [Expr.forget, forgetAll, evalForm, evalForm]
    exact pure rfl
  | .block (e :: es) => by
    rw [Expr.forget, forgetAll, evalForm, evalForm, ← forgetAll]
    exact newScope_bind scope fun inner => seq hs ha ctx inner (e :: es)
  | .assign name value => by
    rw [Expr.forget, evalForm, evalForm]
    refine bind (settled ha (node hs ha {} scope value)) fun v => ?_
    exact bind (assign scope name v) fun _ => pure rfl
  | .annotated e ty => by
    rw [Expr.forget, evalForm, evalForm]
    refine machine_bind fun m => ?_
    rw [Machine.resolveType_forget]
    exact bind (withExpected _ (settled ha (node hs ha _ scope e))) fun v => pure rfl
  | .choose scrutinee branches => by
    rw [Expr.forget, evalForm, evalForm]
    refine bind (settled ha (node hs ha {} scope scrutinee)) fun v => ?_
    exact arms hs ha ctx scope v branches
  | .dict traitName types => by
    rw [Expr.forget]
    unfold evalForm
    split
    · exact fresh_bind fun id => pure rfl
    · exact bind (buildDictionary traitName _) fun d => pure rfl
  | .doChain [] body => by
    rw [Expr.forget, forgetBinds, evalForm, evalForm]
    exact bind (settled ha (node hs ha {} scope body)) fun v => pure rfl
  | .doChain (⟨name, value⟩ :: rest) body => by
    rw [Expr.forget, forgetBinds, evalForm, evalForm]
    refine bind (settled ha (node hs ha {} scope value)) fun source => ?_
    obtain ⟨e, span⟩ := value
    exact bind (bindSource ha scope source name rest body span) fun v => pure rfl
  | .attempt body => by
    rw [Expr.forget, evalForm, evalForm]
    refine bind (attempt (settled ha (node hs ha {} scope body))) fun r => ?_
    cases r with
    | ok v => exact pure rfl
    | error e => exact fresh_bind fun id => pure rfl

theorem all (hs : s.IgnoresPositions) (ha : Apply.Forgets s a a') (scope : ScopeId) :
    ∀ es : List (Spanned Expr),
      Forgets s (List.map Value.forget) (evalAll a scope es) (evalAll a' scope (forgetAll es))
  | [] => by
    rw [forgetAll, evalAll, evalAll]
    exact pure rfl
  | e :: es => by
    rw [forgetAll, evalAll, evalAll]
    refine bind (settled ha (node hs ha {} scope e)) fun v => ?_
    exact bind (all hs ha scope es) fun vs => pure rfl

theorem fields (hs : s.IgnoresPositions) (ha : Apply.Forgets s a a') (scope : ScopeId)
    (done : List (String × Value)) : ∀ es : List (String × Spanned Expr),
      Forgets s (Assoc.mapValues Value.forget) (evalFields a scope done es)
        (evalFields a' scope (Assoc.mapValues Value.forget done) (forgetFields es))
  | [] => by
    rw [forgetFields, evalFields, evalFields]
    exact pure rfl
  | (name, e) :: es => by
    rw [forgetFields, evalFields, evalFields]
    refine bind (settled ha (node hs ha {} scope e)) fun v => ?_
    rw [← Assoc.mapValues_insert]
    exact fields hs ha scope _ es

theorem seq (hs : s.IgnoresPositions) (ha : Apply.Forgets s a a') (ctx : EvalCtx)
    (scope : ScopeId) : ∀ es : List (Spanned Expr),
      Forgets s Step.forget (evalSeq a ctx scope es) (evalSeq a' ctx scope (forgetAll es))
  | [] => by
    rw [forgetAll, evalSeq, evalSeq]
    exact pure rfl
  | [e] => by
    rw [forgetAll, forgetAll, evalSeq, evalSeq]
    exact node hs ha ctx scope e
  | e :: e' :: es => by
    rw [forgetAll, forgetAll, evalSeq, evalSeq, ← forgetAll]
    have hfirst := settled ha (node hs ha {} scope e)
    refine bind (f := id) (bind hfirst fun _ => pure rfl) fun _ => ?_
    exact seq hs ha ctx scope (e' :: es)

theorem arms (hs : s.IgnoresPositions) (ha : Apply.Forgets s a a') (ctx : EvalCtx)
    (scope : ScopeId) (v : Value) : ∀ branches : List Arm,
      Forgets s Step.forget (evalArms a ctx scope v branches)
        (evalArms a' ctx scope v.forget (forgetArms branches))
  | [] => by
    rw [forgetArms, evalArms, evalArms, Value.text_relabel positions_lawful]
    exact fail _
  | ⟨pattern, body⟩ :: branches => by
    rw [forgetArms, evalArms, evalArms]
    refine newScope_bind scope fun inner => bind (matchInto inner pattern.node v) fun matched => ?_
    dsimp only [id]
    split
    · exact node hs ha ctx inner body
    · exact arms hs ha ctx scope v branches

end

theorem evalValue (hs : s.IgnoresPositions) (ha : Apply.Forgets s a a') (ctx : EvalCtx)
    (scope : ScopeId) (e : Spanned Expr) :
    Forgets s Value.forget (evalValue a ctx scope e) (evalValue a' ctx scope (forgetNode e)) :=
  settled ha (node hs ha _ scope e)

end Evaluation

end Run.Forgets

end TraitLang
