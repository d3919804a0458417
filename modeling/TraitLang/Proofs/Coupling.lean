import TraitLang.Proofs.Masking

/-!
Two runs side by side. A coupling says in which settings they are made, what of a fault counts, and
how their stacks correspond; one run follows another if it returns whenever the other does, with the
same result on the same machine, up to masked faults. Main statement: evaluation follows itself if
the ways to apply callables do.
-/
namespace TraitLang

/-- Values that are the same once their faults are masked. -/
def SameValue (g : Fault → Fault) (v v' : Value) : Prop := v.mask g = v'.mask g

def SameValues (g : Fault → Fault) (vs vs' : List Value) : Prop :=
  vs.map (Value.mask g) = vs'.map (Value.mask g)

def SameBindings (g : Fault → Fault) (bs bs' : List (String × Value)) : Prop :=
  bs.map (maskBinding g) = bs'.map (maskBinding g)

def SameDictionary (g : Fault → Fault) (d d' : Dictionary) : Prop := d.mask g = d'.mask g

def SameResolution (g : Fault → Fault) (r r' : Resolution) : Prop :=
  SameValue g r.callee r'.callee ∧ SameValues g r.args r'.args ∧ r.witness = r'.witness

inductive SameResult {α : Type} (g : Fault → Fault) (R : α → α → Prop) :
    Except Fault α → Except Fault α → Prop where
  | ok {a a' : α} : R a a' → SameResult g R (.ok a) (.ok a')
  | error {f f' : Fault} : g f = g f' → SameResult g R (.error f) (.error f')

inductive SameStep (g : Fault → Fault) : Step → Step → Prop where
  | done {v v' : Value} : SameValue g v v' → SameStep g (.done v) (.done v')
  | tail {callee callee' : Value} {args args' : List Value} (site : CallSite) :
      SameValue g callee callee' → SameValues g args args' →
      SameStep g (.tail callee args site) (.tail callee' args' site)

/-- Registrations of the same values, up to masked faults. -/
inductive SameRegistration (g : Fault → Fault) : Registration → Registration → Prop where
  | traitDefault (traitName method : String) {v v' : Value} : SameValue g v v' →
      SameRegistration g (.traitDefault traitName method v) (.traitDefault traitName method v')
  | instanceMethod (traitName : String) (types : List Ty) (method : String) {v v' : Value} :
      SameValue g v v' →
      SameRegistration g (.instanceMethod traitName types method v)
        (.instanceMethod traitName types method v')
  | bridge (name : String) : SameRegistration g (.bridge name) (.bridge name)
  | fallback (name : String) : SameRegistration g (.fallback name) (.fallback name)

/-- Natives that do the same as long as they get the same answers. -/
inductive SameAction (g : Fault → Fault) : Action → Action → Prop where
  | done {v v' : Value} : SameValue g v v' → SameAction g (.done v) (.done v')
  | fail {f f' : Fault} : g f = g f' → SameAction g (.fail f) (.fail f')
  | write (text : String) {next next' : Action} : SameAction g next next' →
      SameAction g (.write text next) (.write text next')
  | fresh {next next' : Ident → Action} : (∀ id, SameAction g (next id) (next' id)) →
      SameAction g (.fresh next) (.fresh next')
  | depths {next next' : Nat → Nat → Nat → Action} :
      (∀ i j k, SameAction g (next i j k) (next' i j k)) →
      SameAction g (.depths next) (.depths next')
  | limits {next next' : Limits → Action} : (∀ l, SameAction g (next l) (next' l)) →
      SameAction g (.limits next) (.limits next')
  | look {next next' : Registry → Store → Action} :
      (∀ r r' st st', r.mask g = r'.mask g → st.mask g = st'.mask g →
        SameAction g (next r st) (next' r' st')) →
      SameAction g (.look next) (.look next')
  | newScope (parent : ScopeId) {next next' : ScopeId → Action} :
      (∀ id, SameAction g (next id) (next' id)) →
      SameAction g (.newScope parent next) (.newScope parent next')
  | define (scope : ScopeId) (name : String) {v v' : Value} {next next' : Action} :
      SameValue g v v' → SameAction g next next' →
      SameAction g (.define scope name v next) (.define scope name v' next')
  | assign (scope : ScopeId) (name : String) {v v' : Value} {next next' : Bool → Action} :
      SameValue g v v' → (∀ bound, SameAction g (next bound) (next' bound)) →
      SameAction g (.assign scope name v next) (.assign scope name v' next')
  | apply {callee callee' : Value} {args args' : List Value} (site : CallSite)
      {next next' : Except Fault Value → Action} : SameValue g callee callee' →
      SameValues g args args' →
      (∀ r r', SameResult g (SameValue g) r r' → SameAction g (next r) (next' r')) →
      SameAction g (.apply callee args site next) (.apply callee' args' site next')
  | call (name : String) {args args' : List Value} {next next' : Except Fault Value → Action} :
      SameValues g args args' →
      (∀ r r', SameResult g (SameValue g) r r' → SameAction g (next r) (next' r')) →
      SameAction g (.call name args next) (.call name args' next')
  | eval (e : Spanned Expr) {next next' : Except Fault Value → Action} :
      (∀ r r', SameResult g (SameValue g) r r' → SameAction g (next r) (next' r')) →
      SameAction g (.eval e next) (.eval e next')
  | resolve (method : ClassMethod) {args args' : List Value} (site : CallSite)
      {next next' : Except Fault Resolution → Action} : SameValues g args args' →
      (∀ r r', SameResult g (SameResolution g) r r' → SameAction g (next r) (next' r')) →
      SameAction g (.resolve method args site next) (.resolve method args' site next')
  | load (p : AnalyzedProgram) {next next' : Except Fault Unit → Action} :
      (∀ r r', SameResult g Eq r r' → SameAction g (next r) (next' r')) →
      SameAction g (.load p next) (.load p next')
  | register {r r' : Registration} {next next' : Action} : SameRegistration g r r' →
      SameAction g next next' → SameAction g (.register r next) (.register r' next')

/-- Nothing that the host supplies looks at what of a fault is masked. -/
structure Host.Blind (g : Fault → Fault) (h : Host) : Prop where
  native : ∀ name {args args'}, SameValues g args args' →
    SameAction g (h.native name args) (h.native name args')
  member : ∀ {m}, ∀ bridge ∈ h.bridgeOn m, ∀ type handle name {args args'},
    SameValues g args args' →
    SameResult g (SameValue g) (bridge.callMember type handle name args)
      (bridge.callMember type handle name args')
  fallback : ∀ {m}, ∀ handler ∈ h.fallbackOn m, ∀ {v v' args args'}, SameValue g v v' →
    SameValues g args args' →
    Option.Rel (SameResult g (SameValue g)) (handler v args) (handler v' args')

inductive SameEvent (g : Fault → Fault) : Event → Event → Prop where
  | overflow (site : CallSite) : SameEvent g (.overflow site) (.overflow site)
  | dispatch (m : ClassMethod) : SameEvent g (.dispatch m) (.dispatch m)
  | body (c : Closure) (scope : ScopeId) : SameEvent g (.body c scope) (.body c scope)
  | native {b b' : Builtin} {args args' : List Value} : b.mask g = b'.mask g →
      SameValues g args args' → SameEvent g (.native b args) (.native b' args')
  | depths : SameEvent g .depths .depths

/-- A native function that never asks for the limits. -/
def Action.IgnoresLimits : Action → Prop
  | .done _ | .fail _ => True
  | .write _ next | .define _ _ _ next | .register _ next => next.IgnoresLimits
  | .fresh next => ∀ id, (next id).IgnoresLimits
  | .depths next => ∀ i j k, (next i j k).IgnoresLimits
  | .limits _ => False
  | .look next => ∀ r st, (next r st).IgnoresLimits
  | .newScope _ next => ∀ id, (next id).IgnoresLimits
  | .assign _ _ _ next => ∀ bound, (next bound).IgnoresLimits
  | .apply _ _ _ next | .call _ _ next | .eval _ next => ∀ r, (next r).IgnoresLimits
  | .resolve _ _ _ next => ∀ r, (next r).IgnoresLimits
  | .load _ next => ∀ r, (next r).IgnoresLimits

def Host.IgnoresLimits (h : Host) : Prop := ∀ name args, (h.native name args).IgnoresLimits

/-- Two runs that are compared. -/
structure Coupling where
  left : Setting
  right : Setting
  /-- what of a fault counts -/
  mask : Fault → Fault
  /-- how calls in progress and evidence on the left correspond to those on the right -/
  frames : Stack CallFrame → WitnessStack → Stack CallFrame → WitnessStack → Prop

namespace Coupling

variable (κ : Coupling) {α β : Type}

structure Machines (m m' : Machine) : Prop where
  store : m.store.mask κ.mask = m'.store.mask κ.mask
  registry : m.registry.mask κ.mask = m'.registry.mask κ.mask
  file : m.file = m'.file
  hints : m.hints = m'.hints
  bridge : m.bridge = m'.bridge
  fallback : m.fallback = m'.fallback
  frames : κ.frames m.calls m.witnesses m'.calls m'.witnesses
  typeContext : m.typeContext = m'.typeContext
  containers : m.containers = m'.containers
  output : m.output = m'.output
  nextIdent : m.nextIdent = m'.nextIdent

/-- The right run returns alike if the left one returns. -/
inductive Outcomes (R : α → α → Prop) : Outcome α → Outcome α → Prop where
  | done {a a' : α} {m m' : Machine} : R a a' → κ.Machines m m' →
      Outcomes R (.done a m) (.done a' m')
  | failed {f f' : Fault} {m m' : Machine} : κ.mask f = κ.mask f' → κ.Machines m m' →
      Outcomes R (.failed f m) (.failed f' m')
  | halted (why : Halt) (o : Outcome α) : Outcomes R (.halted why) o

/-- The computation `x'` on the right follows the computation `x` on the left. -/
def Follows (R : α → α → Prop) (x x' : Run α) : Prop :=
  ∀ m m', κ.Machines m m' → κ.Outcomes R (x κ.left m) (x' κ.right m')

/-- One way to apply callables follows another. -/
def Applies (a a' : Apply) : Prop :=
  ∀ {callee callee' args args'} site, SameValue κ.mask callee callee' →
    SameValues κ.mask args args' →
    κ.Follows (SameValue κ.mask) (a callee args site) (a' callee' args' site)

/-- Natives are given the same limits in both runs, as long as the left one is not stopped. -/
def LimitsAgree : Prop :=
  ∀ {m m'}, κ.Machines m m' → κ.left.breakpoint .limits m = false →
    κ.right.breakpoint .limits m' = false ∧ κ.left.limits = κ.right.limits

/-- The runs agree on all that evaluation looks at, as long as the left one is not stopped. -/
structure Lawful : Prop where
  cause : ∀ f, (κ.mask f).cause = f.cause
  orLocation : ∀ {f f'} span, κ.mask f = κ.mask f' →
    κ.mask (f.orLocation span) = κ.mask (f'.orLocation span)
  host : κ.left.host = κ.right.host
  blind : κ.left.host.Blind κ.mask
  witnesses : ∀ {calls witnesses calls' witnesses'},
    κ.frames calls witnesses calls' witnesses' → witnesses = witnesses'
  reach : ∀ {e e' m m'}, SameEvent κ.mask e e' → κ.Machines m m' →
    κ.left.breakpoint e m = false → κ.right.breakpoint e' m' = false
  depths : ∀ {m m'}, κ.Machines m m' → κ.left.breakpoint .depths m = false →
    m.calls.depth = m'.calls.depth
  limits : κ.left.host.IgnoresLimits ∨ κ.LimitsAgree
  resolve : ∀ method {args args'} site, SameValues κ.mask args args' →
    κ.Follows (SameResolution κ.mask) (Run.resolve method args site)
      (Run.resolve method args' site)

namespace Machines

variable {κ} {m m' : Machine}

theorem get? (h : κ.Machines m m') (scope : ScopeId) (name : String) :
    (m.store.get? scope name).map (Value.mask κ.mask) =
      (m'.store.get? scope name).map (Value.mask κ.mask) := by
  rw [← Store.get?_mask, h.store, Store.get?_mask]

theorem owner? (h : κ.Machines m m') (scope : ScopeId) (name : String) :
    m.store.owner? scope name = m'.store.owner? scope name := by
  rw [← Store.owner?_mask κ.mask, h.store, Store.owner?_mask]

theorem size_eq (h : κ.Machines m m') : m.store.scopes.size = m'.store.scopes.size := by
  rw [← Store.size_mask κ.mask, h.store, Store.size_mask]

theorem define (h : κ.Machines m m') (scope : ScopeId) (name : String) {v v' : Value}
    (hv : SameValue κ.mask v v') :
    κ.Machines { m with store := m.store.define scope name v }
      { m' with store := m'.store.define scope name v' } :=
  { h with store := by rw [Store.mask_define, Store.mask_define, h.store, hv] }

theorem child (h : κ.Machines m m') (parent : ScopeId) :
    κ.Machines { m with store := (m.store.child parent).1 }
      { m' with store := (m'.store.child parent).1 } :=
  { h with store := by rw [Store.mask_child, Store.mask_child, h.store] }

theorem bridgeOn (h : κ.Machines m m') (host : Host) : host.bridgeOn m = host.bridgeOn m' := by
  rw [Host.bridgeOn, h.bridge, Host.bridgeOn]

theorem fallbackOn (h : κ.Machines m m') (host : Host) :
    host.fallbackOn m = host.fallbackOn m' := by
  rw [Host.fallbackOn, h.fallback, Host.fallbackOn]

/-- The variables of a type stand for the same types. -/
theorem resolveType (hκ : κ.Lawful) (h : κ.Machines m m') (ty : Ty) (scope : ScopeId) :
    m.resolveType ty scope = m'.resolveType ty scope := by
  have htype (o : Option Value) :
      o.bind Value.type? = (o.map (Value.mask κ.mask)).bind Value.type? := by
    cases o <;> simp
  unfold Machine.resolveType
  congr 1
  funext name
  rw [htype (m.store.get? scope name), htype (m'.store.get? scope name), h.get?,
    hκ.witnesses h.frames]

end Machines

namespace Follows

variable {κ} {R : α → α → Prop} {Q : β → β → Prop}

theorem pure {a a' : α} (h : R a a') : κ.Follows R (pure a) (pure a') :=
  fun _ _ hm => .done h hm

theorem throw {f f' : Fault} (h : κ.mask f = κ.mask f') :
    κ.Follows R (Run.throw f) (Run.throw f') :=
  fun _ _ hm => .failed h hm

theorem fail (cause : Cause) : κ.Follows R (Run.fail cause) (Run.fail cause) := throw rfl

theorem outOfFuel (x : Run α) : κ.Follows R Run.outOfFuel x := fun _ _ _ => .halted _ _

theorem bind {x x' : Run α} {f f' : α → Run β} (hx : κ.Follows R x x')
    (hf : ∀ a a', R a a' → κ.Follows Q (f a) (f' a')) : κ.Follows Q (x >>= f) (x' >>= f') := by
  intro m m' hm
  show κ.Outcomes Q (Run.bind x f κ.left m) (Run.bind x' f' κ.right m')
  have h := hx m m' hm
  unfold Run.bind
  generalize x κ.left m = o, x' κ.right m' = o' at h ⊢
  cases h with
  | done ha hm₁ => exact hf _ _ ha _ _ hm₁
  | failed he hm₁ => exact .failed he hm₁
  | halted why o => exact .halted _ _

theorem imp {R' : α → α → Prop} {x x' : Run α} (hx : κ.Follows R x x')
    (hR : ∀ a a', R a a' → R' a a') : κ.Follows R' x x' := by
  intro m m' hm
  have h := hx m m' hm
  generalize x κ.left m = o, x' κ.right m' = o' at h ⊢
  cases h with
  | done ha hm₁ => exact .done (hR _ _ ha) hm₁
  | failed he hm₁ => exact .failed he hm₁
  | halted why o => exact .halted _ _

theorem mapFault {g g' : Fault → Fault} {x x' : Run α}
    (hg : ∀ f f', κ.mask f = κ.mask f' → κ.mask (g f) = κ.mask (g' f'))
    (hx : κ.Follows R x x') : κ.Follows R (Run.mapFault g x) (Run.mapFault g' x') := by
  intro m m' hm
  have h := hx m m' hm
  unfold Run.mapFault
  generalize x κ.left m = o, x' κ.right m' = o' at h ⊢
  cases h with
  | done ha hm₁ => exact .done ha hm₁
  | failed he hm₁ => exact .failed (hg _ _ he) hm₁
  | halted why o => exact .halted _ _

theorem mapFault_right {g : Fault → Fault} {x x' : Run α}
    (hg : ∀ f, κ.mask (g f) = κ.mask f) (hx : κ.Follows R x x') :
    κ.Follows R x (Run.mapFault g x') := by
  intro m m' hm
  have h := hx m m' hm
  unfold Run.mapFault
  generalize x κ.left m = o, x' κ.right m' = o' at h ⊢
  cases h with
  | done ha hm₁ => exact .done ha hm₁
  | failed he hm₁ => exact .failed (he.trans (hg _).symm) hm₁
  | halted why o => exact .halted _ _

/-- What every result on the left satisfies may be used. -/
theorem and_left {P : α → Prop} {x x' : Run α}
    (hx : κ.Follows R x x') (hP : ∀ m a m₁, x κ.left m = .done a m₁ → P a) :
    κ.Follows (fun a a' => R a a' ∧ P a) x x' := by
  intro m m' hm
  have h := hx m m' hm
  have hleft := hP m
  generalize x κ.left m = o, x' κ.right m' = o' at h hleft ⊢
  cases h with
  | done ha hm₁ => exact .done ⟨ha, hleft _ _ rfl⟩ hm₁
  | failed he hm₁ => exact .failed he hm₁
  | halted why o => exact .halted _ _

theorem attempt {x x' : Run α} (hx : κ.Follows R x x') :
    κ.Follows (SameResult κ.mask R) (Run.attempt x) (Run.attempt x') := by
  intro m m' hm
  have h := hx m m' hm
  unfold Run.attempt
  generalize x κ.left m = o, x' κ.right m' = o' at h ⊢
  cases h with
  | done ha hm₁ => exact .done (.ok ha) hm₁
  | failed he hm₁ => exact .done (.error he) hm₁
  | halted why o => exact .halted _ _

theorem setting_bind {f f' : Setting → Run β} (hf : κ.Follows Q (f κ.left) (f' κ.right)) :
    κ.Follows Q (Run.setting >>= f) (Run.setting >>= f') :=
  fun m m' hm => hf m m' hm

theorem machine_bind {f f' : Machine → Run β}
    (hf : ∀ m m', κ.Machines m m' → κ.Follows Q (f m) (f' m')) :
    κ.Follows Q (Run.machine >>= f) (Run.machine >>= f') :=
  fun m m' hm => hf m m' hm m m' hm

/-- Both runs find the same bridge. -/
theorem bridge_bind (hκ : κ.Lawful) {f f' : Option Bridge → Run β}
    (hf : ∀ m, κ.Follows Q (f (κ.left.host.bridgeOn m)) (f' (κ.left.host.bridgeOn m))) :
    κ.Follows Q (Run.bridge >>= f) (Run.bridge >>= f') := by
  intro m m' hm
  show κ.Outcomes Q (f (κ.left.host.bridgeOn m) κ.left m)
    (f' (κ.right.host.bridgeOn m') κ.right m')
  rw [← hκ.host, ← hm.bridgeOn]
  exact hf m m m' hm

theorem fallback_bind (hκ : κ.Lawful) {f f' : Option FallbackHandler → Run β}
    (hf : ∀ m, κ.Follows Q (f (κ.left.host.fallbackOn m)) (f' (κ.left.host.fallbackOn m))) :
    κ.Follows Q (Run.fallback >>= f) (Run.fallback >>= f') := by
  intro m m' hm
  show κ.Outcomes Q (f (κ.left.host.fallbackOn m) κ.left m)
    (f' (κ.right.host.fallbackOn m') κ.right m')
  rw [← hκ.host, ← hm.fallbackOn]
  exact hf m m m' hm

theorem fresh_bind {f f' : Ident → Run β} (hf : ∀ id, κ.Follows Q (f id) (f' id)) :
    κ.Follows Q (Run.fresh >>= f) (Run.fresh >>= f') := by
  intro m m' hm
  rw [Run.fresh_bind, Run.fresh_bind, hm.nextIdent]
  exact hf _ _ _ { hm with nextIdent := rfl }

theorem newScope_bind {f f' : ScopeId → Run β} (parent : ScopeId)
    (hf : ∀ id, κ.Follows Q (f id) (f' id)) :
    κ.Follows Q (Run.newScope parent >>= f) (Run.newScope parent >>= f') := by
  intro m m' hm
  have h := hf m.store.scopes.size _ _ (hm.child parent)
  show κ.Outcomes Q (f m.store.scopes.size _ _) (f' m'.store.scopes.size _ _)
  rwa [← hm.size_eq]

theorem lookup (scope : ScopeId) (name : String) :
    κ.Follows (SameValue κ.mask) (Run.lookup scope name) (Run.lookup scope name) := by
  intro m m' hm
  have h := hm.get? scope name
  unfold Run.lookup
  cases hv : m.store.get? scope name with
  | none =>
    have hv' : m'.store.get? scope name = none := by simpa [hv] using h.symm
    rw [hv']
    exact .failed rfl hm
  | some v =>
    obtain ⟨v', hv', hsame⟩ : ∃ v', m'.store.get? scope name = some v' ∧
        v'.mask κ.mask = v.mask κ.mask := by simpa [hv] using h.symm
    rw [hv']
    exact .done hsame.symm hm

theorem define (scope : ScopeId) (name : String) {v v' : Value} (hv : SameValue κ.mask v v') :
    κ.Follows Eq (Run.define scope name v) (Run.define scope name v') :=
  fun _ _ hm => .done rfl (hm.define scope name hv)

theorem assign (scope : ScopeId) (name : String) {v v' : Value} (hv : SameValue κ.mask v v') :
    κ.Follows Eq (Run.assign scope name v) (Run.assign scope name v') := by
  intro m m' hm
  have howner := hm.owner? scope name
  cases howner' : m'.store.owner? scope name with
  | none =>
    rw [Run.assign_of_no_owner (howner.trans howner'), Run.assign_of_no_owner howner']
    exact .failed rfl hm
  | some owner =>
    rw [Run.assign_of_owner (howner.trans howner'), Run.assign_of_owner howner']
    exact .done rfl (hm.define owner name hv)

theorem defineAll (scope : ScopeId) {bs bs' : List (String × Value)}
    (h : SameBindings κ.mask bs bs') :
    κ.Follows Eq (Run.defineAll scope bs) (Run.defineAll scope bs') := by
  induction bs generalizing bs' with
  | nil =>
    obtain rfl : bs' = [] := by simpa [SameBindings] using h.symm
    exact pure rfl
  | cons b bs ih =>
    cases bs' with
    | nil => simp [SameBindings] at h
    | cons b' bs' =>
      obtain ⟨name, v⟩ := b
      obtain ⟨name', v'⟩ := b'
      simp only [SameBindings, List.map_cons, List.cons.injEq, maskBinding, Prod.mk.injEq] at h
      obtain ⟨⟨rfl, hv⟩, hrest⟩ := h
      exact bind (define scope name hv) fun _ _ _ => ih hrest

theorem matchInto (scope : ScopeId) (p : Pattern) {v v' : Value} (hv : SameValue κ.mask v v') :
    κ.Follows Eq (p.matchInto scope v) (p.matchInto scope v') := by
  have hwritten : SameBindings κ.mask (p.written v) (p.written v') := by
    rw [SameBindings, ← Pattern.written_mask, hv, Pattern.written_mask]
  have hmatched : (p.bindings? v).isSome = (p.bindings? v').isSome := by
    rw [← Pattern.isSome_bindings?_mask κ.mask p v, hv, Pattern.isSome_bindings?_mask]
  rw [Pattern.matchInto_eq, Pattern.matchInto_eq]
  exact bind (defineAll scope hwritten) fun _ _ _ => pure hmatched

theorem write (text : String) :
    κ.Follows Eq (Run.modify fun m => { m with output := m.output ++ text })
      (Run.modify fun m => { m with output := m.output ++ text }) :=
  fun _ _ hm => .done rfl { hm with output := congrArg (· ++ text) hm.output }

theorem ofExcept {r r' : Except Fault α} (h : SameResult κ.mask R r r') :
    κ.Follows R (Run.ofExcept r) (Run.ofExcept r') := by
  cases h with
  | ok ha => exact pure ha
  | error he => exact throw he

theorem ofCause {r r' : Except Cause Value}
    (h : r.map (Value.mask κ.mask) = r'.map (Value.mask κ.mask)) :
    κ.Follows (SameValue κ.mask) (Run.ofCause r) (Run.ofCause r') := by
  cases r with
  | ok v =>
    cases r' with
    | ok v' => exact pure (Except.ok.inj h)
    | error cause => cases h
  | error cause =>
    cases r' with
    | ok v' => cases h
    | error cause' => exact Except.error.inj h ▸ fail cause

theorem ensuring {x x' : Run α} {tidy tidy' : Machine → Machine} {p p' : Machine}
    (hx : κ.Follows R x x') (hp : κ.Machines p p')
    (htidy : ∀ m₁ m₁', κ.Machines m₁ m₁' → κ.Machines (tidy m₁) (tidy' m₁')) :
    κ.Outcomes R (Run.ensuring tidy x κ.left p) (Run.ensuring tidy' x' κ.right p') := by
  have h := hx p p' hp
  unfold Run.ensuring
  generalize x κ.left p = o, x' κ.right p' = o' at h ⊢
  cases h with
  | done ha hm₁ => exact .done ha (htidy _ _ hm₁)
  | failed he hm₁ => exact .failed he (htidy _ _ hm₁)
  | halted why o => exact .halted _ _

theorem withExpected {x x' : Run α} (t : Ty) (hx : κ.Follows R x x') :
    κ.Follows R (Run.withExpected t x) (Run.withExpected t x') := by
  intro m m' hm
  unfold Run.withExpected
  dsimp only
  rw [hm.typeContext]
  exact ensuring hx { hm with typeContext := rfl }
    fun _ _ h => { h with typeContext := by rw [h.typeContext] }

theorem withContainer {x x' : Run α} (name : String) (hx : κ.Follows R x x') :
    κ.Follows R (Run.withContainer name x) (Run.withContainer name x') := by
  intro m m' hm
  unfold Run.withContainer
  dsimp only
  rw [hm.containers]
  exact ensuring hx { hm with containers := rfl }
    fun _ _ h => { h with containers := by rw [h.containers] }

theorem reach (hκ : κ.Lawful) {e e' : Event} (he : SameEvent κ.mask e e') :
    κ.Follows Eq (Run.reach e) (Run.reach e') := by
  intro m m' hm
  unfold Run.reach
  cases hb : κ.left.breakpoint e m with
  | true => exact .halted _ _
  | false =>
    rw [hκ.reach he hm hb]
    exact .done rfl hm

variable {a a' : Apply}

theorem settled (ha : κ.Applies a a') {x x' : Run Step} (hx : κ.Follows (SameStep κ.mask) x x') :
    κ.Follows (SameValue κ.mask) (Run.settled a x) (Run.settled a' x') := by
  refine bind hx fun _ _ hstep => ?_
  cases hstep with
  | done hv => exact pure hv
  | tail site hcallee hargs => exact ha site hcallee hargs

theorem finishCall (ha : κ.Applies a a') (ctx : EvalCtx) {callee callee' : Value}
    {args args' : List Value} (site : CallSite) (hcallee : SameValue κ.mask callee callee')
    (hargs : SameValues κ.mask args args') :
    κ.Follows (SameStep κ.mask) (Run.finishCall a ctx callee args site)
      (Run.finishCall a' ctx callee' args' site) := by
  unfold Run.finishCall
  split
  · exact pure (.tail site hcallee hargs)
  · exact bind (ha site hcallee hargs) fun _ _ hv => pure (.done hv)

theorem callMember (hκ : κ.Lawful) (ha : κ.Applies a a') (ctx : EvalCtx) (scope : ScopeId)
    {recv recv' : Value} (method : String) {args args' : List Value} (site : CallSite)
    (hrecv : SameValue κ.mask recv recv') (hargs : SameValues κ.mask args args') :
    κ.Follows (SameStep κ.mask) (Run.callMember a ctx scope recv method args site)
      (Run.callMember a' ctx scope recv' method args' site) := by
  have hforeign : recv.foreign? = recv'.foreign? := by
    rw [← Value.foreign?_mask κ.mask, hrecv, Value.foreign?_mask]
  have hmember : (recv.member? method).map (Value.mask κ.mask) =
      (recv'.member? method).map (Value.mask κ.mask) := by
    rw [← Value.member?_mask, hrecv, Value.member?_mask]
  unfold Run.callMember
  rw [← hforeign]
  cases recv.foreign? with
  | some foreign =>
    refine bridge_bind hκ fun m => ?_
    cases hbridge : κ.left.host.bridgeOn m with
    | none => exact fail _
    | some bridge =>
      have hresult := hκ.blind.member bridge hbridge foreign.1 foreign.2 method hargs
      exact bind (ofExcept hresult) fun _ _ hv => pure (.done hv)
  | none =>
    cases hfield : recv.member? method with
    | some callee =>
      obtain ⟨callee', hfield', hsame⟩ : ∃ callee', recv'.member? method = some callee' ∧
          callee'.mask κ.mask = callee.mask κ.mask := by simpa [hfield] using hmember.symm
      rw [hfield']
      exact finishCall ha ctx site hsame.symm hargs
    | none =>
      have hfield' : recv'.member? method = none := by simpa [hfield] using hmember.symm
      rw [hfield']
      refine bind (lookup scope method) fun fn fn' hfn => machine_bind fun m m' hm => ?_
      refine finishCall ha ctx site ?_ hargs
      rw [SameValue, Value.mask, Value.mask, hm.nextIdent, hfn, hrecv]

theorem readField (hκ : κ.Lawful) {v v' : Value} (name : String) (hv : SameValue κ.mask v v') :
    κ.Follows (SameValue κ.mask) (Run.readField v name) (Run.readField v' name) := by
  have hforeign : v.foreign? = v'.foreign? := by
    rw [← Value.foreign?_mask κ.mask, hv, Value.foreign?_mask]
  unfold Run.readField
  rw [← hforeign]
  cases v.foreign? with
  | some foreign =>
    refine bridge_bind hκ fun m => ?_
    cases κ.left.host.bridgeOn m with
    | none => exact fail _
    | some bridge =>
      refine ofExcept ?_
      cases bridge.readField foreign.1 foreign.2 name with
      | ok w => exact .ok rfl
      | error f => exact .error rfl
  | none => exact ofCause (by rw [← Value.field_mask, hv, Value.field_mask])

theorem asBool {v v' : Value} (hv : SameValue κ.mask v v') :
    κ.Follows Eq v.asBool v'.asBool := by
  have hmask (v : Value) : (v.mask κ.mask).asBool = v.asBool := by
    cases v <;> simp [Value.asBool, Value.typeName]
  rw [← hmask v, hv, hmask]
  cases v' with
  | bool b => exact pure rfl
  | _ => exact fail _

theorem buildDictionary (traitName : String) (key : TypeKey) :
    κ.Follows (SameDictionary κ.mask) (Run.buildDictionary traitName key)
      (Run.buildDictionary traitName key) := by
  intro m m' hm
  have hmasked (r : Registry) := r.dictionary?_relabel (masking κ.mask) key traitName m'.nextIdent
  have hfound : (m.registry.dictionary? traitName key m'.nextIdent).map
        (fun built => (built.1.mask κ.mask, built.2)) =
      (m'.registry.dictionary? traitName key m'.nextIdent).map
        fun built => (built.1.mask κ.mask, built.2) := by
    rw [Dictionary.mask_eq, ← hmasked, ← hmasked]
    exact congrArg (·.dictionary? traitName key m'.nextIdent) hm.registry
  unfold Run.buildDictionary
  rw [hm.nextIdent]
  cases hd : m.registry.dictionary? traitName key m'.nextIdent with
  | none =>
    have hd' : m'.registry.dictionary? traitName key m'.nextIdent = none := by
      simpa [hd] using hfound.symm
    rw [hd']
    exact .failed rfl hm
  | some built =>
    obtain ⟨d', hd', hsame⟩ : ∃ d', m'.registry.dictionary? traitName key m'.nextIdent =
        some (d', built.2) ∧ d'.mask κ.mask = built.1.mask κ.mask := by
      simpa [hd] using hfound.symm
    rw [hd']
    exact .done hsame.symm { hm with nextIdent := rfl }

theorem bindSource (ha : κ.Applies a a') (scope : ScopeId) {source source' : Value} (name : String)
    (rest : List DoBind) (body : Spanned Expr) (span : Span)
    (hsource : SameValue κ.mask source source') :
    κ.Follows (SameValue κ.mask) (Run.bindSource a scope source name rest body span)
      (Run.bindSource a' scope source' name rest body span) := by
  have htype : source.typeName = source'.typeName := by
    rw [← Value.typeName_mask κ.mask, hsource, Value.typeName_mask]
  unfold Run.bindSource
  rw [← htype]
  refine withContainer _ (bind (lookup scope "bind") fun _ _ hbind => fresh_bind fun id => ?_)
  refine ha _ hbind ?_
  rw [SameValues, List.map_cons, hsource, ← List.map_cons]

mutual

theorem node (hκ : κ.Lawful) (ha : κ.Applies a a') (ctx : EvalCtx) (scope : ScopeId) :
    ∀ e : Spanned Expr,
      κ.Follows (SameStep κ.mask) (evalNode a ctx scope e) (evalNode a' ctx scope e)
  | ⟨e, span⟩ => by
    rw [evalNode, evalNode]
    exact mapFault (fun _ _ => hκ.orLocation span) (form hκ ha ctx scope span e)

theorem form (hκ : κ.Lawful) (ha : κ.Applies a a') (ctx : EvalCtx) (scope : ScopeId)
    (span : Span) : ∀ e : Expr,
      κ.Follows (SameStep κ.mask) (evalForm a ctx scope span e) (evalForm a' ctx scope span e)
  | .lit l => by rw [evalForm, evalForm]; exact pure (.done rfl)
  | .var name => by
    rw [evalForm, evalForm]
    exact bind (lookup scope name) fun _ _ hv => pure (.done hv)
  | .list items | .tuple items => by
    rw [evalForm, evalForm]
    refine bind (all hκ ha scope items) fun vs vs' hvs => pure (.done ?_)
    rw [SameValue, Value.mask, Value.mask, maskAll_eq, maskAll_eq, hvs]
  | .record entries => by
    rw [evalForm, evalForm]
    refine bind (fields hκ ha scope entries rfl) fun fs fs' hfs => pure (.done ?_)
    rw [SameValue, Value.mask, Value.mask, maskFields_eq, maskFields_eq, hfs]
  | .range start stop => by
    rw [evalForm, evalForm]
    refine bind (settled ha (node hκ ha {} scope start)) fun first first' hfirst => ?_
    refine bind (settled ha (node hκ ha {} scope stop)) fun last last' hlast => ?_
    refine bind (ofCause ?_) fun _ _ hv => pure (.done hv)
    rw [← Value.upTo_mask, hfirst, hlast, Value.upTo_mask]
  | .lambda f => by
    rw [evalForm, evalForm]
    refine machine_bind fun m m' hm => fresh_bind fun id => ?_
    rw [hκ.witnesses hm.frames]
    exact pure (.done rfl)
  | .call id callee args => by
    rw [evalForm, evalForm]
    refine bind (settled ha (node hκ ha {} scope callee)) fun fn fn' hfn => ?_
    refine bind (all hκ ha scope args) fun vals vals' hvals => ?_
    have hname : fn.callableName = fn'.callableName := by
      rw [← Value.callableName_mask κ.mask, hfn, Value.callableName_mask]
    rw [hname]
    exact finishCall ha ctx _ hfn hvals
  | .methodCall id receiver method args => by
    rw [evalForm, evalForm]
    refine bind (settled ha (node hκ ha {} scope receiver)) fun recv recv' hrecv => ?_
    refine bind (all hκ ha scope args) fun vals vals' hvals => ?_
    exact callMember hκ ha ctx scope method _ hrecv hvals
  | .field target name => by
    rw [evalForm, evalForm]
    refine bind (settled ha (node hκ ha {} scope target)) fun v v' hv => ?_
    exact bind (readField hκ name hv) fun _ _ hw => pure (.done hw)
  | .binary left op right => by
    rw [evalForm, evalForm]
    refine bind (settled ha (node hκ ha {} scope left)) fun l l' hl => ?_
    have hright := settled ha (node hκ ha {} scope right)
    split
    · refine bind (asBool hl) fun b b' hb => ?_
      obtain rfl := hb
      split
      · refine bind hright fun r r' hr => bind (asBool hr) fun b b' hb => ?_
        exact pure (.done (by rw [hb]; rfl))
      · exact pure (.done rfl)
    · refine bind hright fun r r' hr => bind (ofCause ?_) fun _ _ hv => pure (.done hv)
      rw [← BinOp.eval_mask, hl, hr, BinOp.eval_mask]
  | .unary op operand => by
    rw [evalForm, evalForm]
    refine bind (settled ha (node hκ ha {} scope operand)) fun v v' hv => ?_
    refine bind (ofCause ?_) fun _ _ hw => pure (.done hw)
    rw [← UnOp.eval_mask, hv, UnOp.eval_mask]
  | .operator op => by rw [evalForm, evalForm]; exact pure (.done rfl)
  | .compose outer inner => by
    rw [evalForm, evalForm]
    refine bind (settled ha (node hκ ha {} scope outer)) fun f f' hf => ?_
    refine bind (settled ha (node hκ ha {} scope inner)) fun g g' hg => ?_
    refine fresh_bind fun id => pure (.done ?_)
    rw [SameValue, Value.mask, Value.mask, hf, hg]
  | .cond test yes no => by
    rw [evalForm, evalForm]
    refine bind (settled ha (node hκ ha {} scope test)) fun v v' hv => ?_
    refine bind (asBool hv) fun b b' hb => ?_
    obtain rfl := hb
    split
    · exact node hκ ha ctx scope yes
    · exact node hκ ha ctx scope no
  | .letIn name ty value body => by
    rw [evalForm, evalForm]
    refine bind (settled ha (node hκ ha _ scope value)) fun v v' hv => ?_
    refine newScope_bind scope fun inner => ?_
    exact bind (define inner name hv) fun _ _ _ => node hκ ha ctx inner body
  | .block [] => by rw [evalForm, evalForm]; exact pure (.done rfl)
  | .block (e :: es) => by
    rw [evalForm, evalForm]
    exact newScope_bind scope fun inner => seq hκ ha ctx inner (e :: es)
  | .assign name value => by
    rw [evalForm, evalForm]
    refine bind (settled ha (node hκ ha {} scope value)) fun v v' hv => ?_
    exact bind (assign scope name hv) fun _ _ _ => pure (.done rfl)
  | .annotated e ty => by
    rw [evalForm, evalForm]
    refine machine_bind fun m m' hm => ?_
    rw [hm.resolveType hκ]
    exact bind (withExpected _ (settled ha (node hκ ha _ scope e))) fun _ _ hv => pure (.done hv)
  | .choose scrutinee branches => by
    rw [evalForm, evalForm]
    refine bind (settled ha (node hκ ha {} scope scrutinee)) fun v v' hv => ?_
    exact arms hκ ha ctx scope hv branches
  | .dict traitName types => by
    unfold evalForm
    split
    · exact fresh_bind fun id => pure (.done rfl)
    · refine bind (buildDictionary traitName _) fun d d' hd => pure (.done ?_)
      rw [SameValue, Value.mask, Value.mask, hd]
  | .doChain [] body => by
    rw [evalForm, evalForm]
    exact bind (settled ha (node hκ ha {} scope body)) fun _ _ hv => pure (.done hv)
  | .doChain (⟨name, value⟩ :: rest) body => by
    rw [evalForm, evalForm]
    refine bind (settled ha (node hκ ha {} scope value)) fun source source' hsource => ?_
    exact bind (bindSource ha scope name rest body _ hsource) fun _ _ hv => pure (.done hv)
  | .attempt body => by
    rw [evalForm, evalForm]
    refine bind (attempt (settled ha (node hκ ha {} scope body))) fun r r' hr => ?_
    cases hr with
    | ok hv => exact pure (.done hv)
    | error hf =>
      refine fresh_bind fun id => pure (.done ?_)
      rw [SameValue, Value.mask, Value.mask, hf]

theorem all (hκ : κ.Lawful) (ha : κ.Applies a a') (scope : ScopeId) :
    ∀ es : List (Spanned Expr),
      κ.Follows (SameValues κ.mask) (evalAll a scope es) (evalAll a' scope es)
  | [] => by rw [evalAll, evalAll]; exact pure rfl
  | e :: es => by
    rw [evalAll, evalAll]
    refine bind (settled ha (node hκ ha {} scope e)) fun v v' hv => ?_
    refine bind (all hκ ha scope es) fun vs vs' hvs => pure ?_
    rw [SameValues, List.map_cons, List.map_cons, hv, hvs]

theorem fields (hκ : κ.Lawful) (ha : κ.Applies a a') (scope : ScopeId) :
    ∀ (es : List (String × Spanned Expr)) {done done' : List (String × Value)},
      SameBindings κ.mask done done' →
      κ.Follows (SameBindings κ.mask) (evalFields a scope done es) (evalFields a' scope done' es)
  | [], _, _, hdone => by rw [evalFields, evalFields]; exact pure hdone
  | (name, e) :: es, done, done', hdone => by
    rw [evalFields, evalFields]
    refine bind (settled ha (node hκ ha {} scope e)) fun v v' hv => ?_
    refine fields hκ ha scope es ?_
    rw [SameBindings, ← insert_map_maskBinding, hdone, hv, insert_map_maskBinding]

theorem seq (hκ : κ.Lawful) (ha : κ.Applies a a') (ctx : EvalCtx) (scope : ScopeId) :
    ∀ es : List (Spanned Expr),
      κ.Follows (SameStep κ.mask) (evalSeq a ctx scope es) (evalSeq a' ctx scope es)
  | [] => by rw [evalSeq, evalSeq]; exact pure (.done rfl)
  | [e] => by rw [evalSeq, evalSeq]; exact node hκ ha ctx scope e
  | e :: e' :: es => by
    rw [evalSeq, evalSeq]
    have hfirst := settled ha (node hκ ha {} scope e)
    refine bind (bind hfirst fun _ _ _ => pure (R := Eq) rfl) fun _ _ _ => ?_
    exact seq hκ ha ctx scope (e' :: es)

theorem arms (hκ : κ.Lawful) (ha : κ.Applies a a') (ctx : EvalCtx) (scope : ScopeId)
    {v v' : Value} (hv : SameValue κ.mask v v') : ∀ branches : List Arm,
      κ.Follows (SameStep κ.mask) (evalArms a ctx scope v branches)
        (evalArms a' ctx scope v' branches)
  | [] => by
    rw [evalArms, evalArms, ← Value.text_mask hκ.cause v, hv, Value.text_mask hκ.cause]
    exact fail _
  | ⟨pattern, body⟩ :: branches => by
    rw [evalArms, evalArms]
    refine newScope_bind scope fun inner => bind (matchInto inner pattern.node hv) ?_
    rintro matched _ rfl
    split
    · exact node hκ ha ctx inner body
    · exact arms hκ ha ctx scope hv branches

end

end Follows

end Coupling

end TraitLang
