import TraitLang.Proofs.Materialization

/-!
Policies: whether code may assign, whether traits play a part, which scopes code can get hold of,
and which types may serve as evidence. A value obeys a policy if the code in it and the scopes and
evidence that it captured do; a machine does if all that a program can get hold of does. Operations
on values, the store and the registry keep to a policy.
-/
namespace TraitLang

/-- What code may do. -/
structure Rules where
  /-- it may assign -/
  assigns : Bool
  /-- traits play a part: their methods occur as values, functions declare their results, and
  evidence is in force -/
  traits : Bool

mutual

/-- An expression follows the rules, the functions in it and their defaults included. -/
def Expr.follows (r : Rules) : Expr → Bool
  | .lit _ | .var _ | .operator _ | .dict _ _ => true
  | .list items | .tuple items | .block items => allFollow r items
  | .record fields => fieldsFollow r fields
  | .range e e' | .binary e _ e' | .compose e e' | .letIn _ _ e e' =>
    nodeFollows r e && nodeFollows r e'
  | .lambda f => f.follows r
  | .call _ callee args => nodeFollows r callee && allFollow r args
  | .methodCall _ receiver _ args => nodeFollows r receiver && allFollow r args
  | .field e _ | .unary _ e | .annotated e _ | .attempt e => nodeFollows r e
  | .cond test yes no => nodeFollows r test && nodeFollows r yes && nodeFollows r no
  | .assign _ value => r.assigns && nodeFollows r value
  | .choose scrutinee arms => nodeFollows r scrutinee && armsFollow r arms
  | .doChain binds body => bindsFollow r binds && nodeFollows r body

def nodeFollows (r : Rules) : Spanned Expr → Bool
  | ⟨e, _⟩ => e.follows r

def allFollow (r : Rules) : List (Spanned Expr) → Bool
  | [] => true
  | e :: es => nodeFollows r e && allFollow r es

def fieldsFollow (r : Rules) : List (String × Spanned Expr) → Bool
  | [] => true
  | (_, e) :: es => nodeFollows r e && fieldsFollow r es

def armsFollow (r : Rules) : List Arm → Bool
  | [] => true
  | ⟨_, body⟩ :: arms => nodeFollows r body && armsFollow r arms

def bindsFollow (r : Rules) : List DoBind → Bool
  | [] => true
  | ⟨_, value⟩ :: binds => nodeFollows r value && bindsFollow r binds

def Func.follows (r : Rules) : Func → Bool
  | ⟨_, params, result, _, _, body, _⟩ =>
    (r.traits || result.isNone) && (paramsFollow r params && nodeFollows r body)

def paramsFollow (r : Rules) : List Param → Bool
  | [] => true
  | ⟨_, _, default, _⟩ :: params => defaultFollows r default && paramsFollow r params

def defaultFollows (r : Rules) : Option (Spanned Expr) → Bool
  | none => true
  | some e => nodeFollows r e

end

/-- No rules at all. -/
def Rules.lax : Rules := ⟨true, true⟩

mutual

theorem Expr.follows_lax : ∀ e : Expr, e.follows .lax = true
  | .lit _ | .var _ | .operator _ | .dict _ _ => by simp [Expr.follows]
  | .list items | .tuple items | .block items => by simp [Expr.follows, allFollow_lax items]
  | .record fields => by simp [Expr.follows, fieldsFollow_lax fields]
  | .range e e' | .binary e _ e' | .compose e e' | .letIn _ _ e e' => by
    simp [Expr.follows, nodeFollows_lax e, nodeFollows_lax e']
  | .lambda f => by simp [Expr.follows, Func.follows_lax f]
  | .call _ e args | .methodCall _ e _ args => by
    simp [Expr.follows, nodeFollows_lax e, allFollow_lax args]
  | .field e _ | .unary _ e | .annotated e _ | .attempt e => by
    simp [Expr.follows, nodeFollows_lax e]
  | .cond test yes no => by
    simp [Expr.follows, nodeFollows_lax test, nodeFollows_lax yes, nodeFollows_lax no]
  | .assign _ value => by
    rw [Expr.follows, nodeFollows_lax value]
    rfl
  | .choose scrutinee arms => by
    simp [Expr.follows, nodeFollows_lax scrutinee, armsFollow_lax arms]
  | .doChain binds body => by simp [Expr.follows, bindsFollow_lax binds, nodeFollows_lax body]

theorem nodeFollows_lax : ∀ e : Spanned Expr, nodeFollows .lax e = true
  | ⟨e, _⟩ => by rw [nodeFollows]; exact e.follows_lax

theorem allFollow_lax : ∀ es : List (Spanned Expr), allFollow .lax es = true
  | [] => by rw [allFollow]
  | e :: es => by simp [allFollow, nodeFollows_lax e, allFollow_lax es]

theorem fieldsFollow_lax : ∀ es : List (String × Spanned Expr), fieldsFollow .lax es = true
  | [] => by rw [fieldsFollow]
  | (_, e) :: es => by simp [fieldsFollow, nodeFollows_lax e, fieldsFollow_lax es]

theorem armsFollow_lax : ∀ arms : List Arm, armsFollow .lax arms = true
  | [] => by rw [armsFollow]
  | ⟨_, body⟩ :: arms => by simp [armsFollow, nodeFollows_lax body, armsFollow_lax arms]

theorem bindsFollow_lax : ∀ binds : List DoBind, bindsFollow .lax binds = true
  | [] => by rw [bindsFollow]
  | ⟨_, value⟩ :: binds => by simp [bindsFollow, nodeFollows_lax value, bindsFollow_lax binds]

theorem Func.follows_lax : ∀ f : Func, f.follows .lax = true
  | ⟨_, params, _, _, _, body, _⟩ => by
    rw [Func.follows, paramsFollow_lax params, nodeFollows_lax body]
    rfl

theorem paramsFollow_lax : ∀ params : List Param, paramsFollow .lax params = true
  | [] => by rw [paramsFollow]
  | ⟨_, _, default, _⟩ :: params => by
    simp [paramsFollow, defaultFollows_lax default, paramsFollow_lax params]

theorem defaultFollows_lax : ∀ default : Option (Spanned Expr), defaultFollows .lax default = true
  | none => by rw [defaultFollows]
  | some e => by rw [defaultFollows]; exact nodeFollows_lax e

end

/-- A trait declaration makes its methods values. -/
def Item.follows (r : Rules) : Item → Bool
  | func f => f.follows r
  | data _ => true
  | traitDecl _ => r.traits
  | inst d => d.methods.all (Func.follows r)
  | const c => nodeFollows r c.value

def AnalyzedProgram.follows (r : Rules) (p : AnalyzedProgram) : Bool :=
  p.program.items.all (Item.follows r) &&
    p.hints.traitDefaults.all fun d => d.2.all (Func.follows r)

theorem AnalyzedProgram.follows_lax (p : AnalyzedProgram) : p.follows .lax = true := by
  have item (i : Item) : i.follows .lax = true := by
    cases i with
    | func f => exact f.follows_lax
    | data d | traitDecl t => rfl
    | inst d => exact List.all_eq_true.2 fun f _ => f.follows_lax
    | const c => exact nodeFollows_lax c.value
  simp [AnalyzedProgram.follows, item, Func.follows_lax]

/-- No assignment stands in the expression, the functions in it and their defaults included. -/
def nodeAssignFree (e : Spanned Expr) : Bool := nodeFollows ⟨false, true⟩ e

section Functions

variable {r : Rules} {f : Func}

theorem Func.follows_eq (r : Rules) (f : Func) :
    f.follows r = ((r.traits || f.retTy.isNone) &&
      (paramsFollow r f.params && nodeFollows r f.body)) := by
  obtain ⟨_, params, _, _, _, body, _⟩ := f
  rw [Func.follows]

theorem Func.traits_of_follows (h : f.follows r = true) {ty : Ty} (hty : f.retTy = some ty) :
    r.traits = true := by
  rw [f.follows_eq, hty] at h
  simpa using (Bool.and_eq_true_iff.1 h).1

theorem Func.follows_body (h : f.follows r = true) : nodeFollows r f.body = true := by
  simp only [f.follows_eq, Bool.and_eq_true] at h
  exact h.2.2

theorem Func.follows_default (h : f.follows r = true) {p : Param} (hp : p ∈ f.params)
    {e : Spanned Expr} (he : p.default = some e) : nodeFollows r e = true := by
  have params (ps : List Param) (hps : paramsFollow r ps = true) (hp : p ∈ ps) :
      nodeFollows r e = true := by
    induction ps with
    | nil => cases hp
    | cons q ps ih =>
      obtain ⟨name, ty, default, variadic⟩ := q
      rw [paramsFollow, Bool.and_eq_true] at hps
      rcases List.mem_cons.1 hp with rfl | hp
      · rw [show default = some e from he] at hps
        exact hps.1
      · exact ih hps.2 hp
  simp only [f.follows_eq, Bool.and_eq_true] at h
  exact params f.params h.2.1 hp

theorem Func.mem_params_of_fixed {p : Param} (hp : p ∈ f.fixedParams) : p ∈ f.params := by
  unfold fixedParams at hp
  split at hp
  · exact (List.dropLast_sublist _).subset hp
  · exact hp

end Functions

structure Policy extends Rules where
  /-- scopes that a program can get hold of -/
  live : ScopeId → Prop
  /-- types that may serve as evidence -/
  evidence : Ty → Prop
  evidence_of_known : traits = true → ∀ {ty : Ty}, ty.hasVarHead = false → evidence ty

/-- The types of a frame may serve as evidence, and there may be evidence at all. -/
structure WitnessFrame.Obeys (P : Policy) (f : WitnessFrame) : Prop where
  traits : P.traits = true
  evidence : ∀ e ∈ f.entries, P.evidence e.2

/-- A closure over code, a scope and evidence within a policy. -/
structure Closure.Obeys (P : Policy) (c : Closure) : Prop where
  code : c.func.follows P.toRules = true
  live : P.live c.scope
  captured : ∀ f, c.witnesses = some f → f.Obeys P

def Native.Obeys (P : Policy) : Native → Prop
  | .core _ | .host _ => True
  | .resume _ rest body scope =>
    P.live scope ∧ bindsFollow P.toRules rest = true ∧ nodeFollows P.toRules body = true

mutual

/-- Whatever code, scopes and evidence the value holds are within the policy. What stands in a
dictionary counts only where traits play a part, since nothing else opens it. -/
def Value.Obeys (P : Policy) : Value → Prop
  | .unit | .int _ | .float _ | .bool _ | .char _ | .str _ | .range _ _ | .error _ _ | .typeRep _
  | .host _ _ | .constructor _ _ _ _ | .operator _ => True
  | .method _ _ => P.traits = true
  | .list items | .tuple items | .data _ _ items => allObey P items
  | .record fields => fieldsObey P fields
  | .function _ c => c.Obeys P
  | .builtin b => b.Obeys P
  | .partialApp _ callee args _ => callee.Obeys P ∧ allObey P args
  | .dictionary d => P.traits = true → d.Obeys P
  | .bound _ v w | .composed _ v w => v.Obeys P ∧ w.Obeys P

def Dictionary.Obeys (P : Policy) : Dictionary → Prop
  | ⟨_, _, _, methods, supers⟩ => allObey P methods ∧ dictionariesObey P supers

def Builtin.Obeys (P : Policy) : Builtin → Prop
  | ⟨_, _, native, _, defaults⟩ => native.Obeys P ∧ allObey P defaults

def allObey (P : Policy) : List Value → Prop
  | [] => True
  | v :: vs => v.Obeys P ∧ allObey P vs

def fieldsObey (P : Policy) : List (String × Value) → Prop
  | [] => True
  | (_, v) :: fields => v.Obeys P ∧ fieldsObey P fields

def dictionariesObey (P : Policy) : List Dictionary → Prop
  | [] => True
  | d :: ds => d.Obeys P ∧ dictionariesObey P ds

end

section Lists

variable {P : Policy}

@[simp] theorem allObey_iff (vs : List Value) : allObey P vs ↔ ∀ v ∈ vs, v.Obeys P := by
  induction vs with
  | nil => simp [allObey]
  | cons v vs ih => simp [allObey, ih]

@[simp] theorem fieldsObey_iff (fields : List (String × Value)) :
    fieldsObey P fields ↔ ∀ b ∈ fields, b.2.Obeys P := by
  induction fields with
  | nil => simp [fieldsObey]
  | cons b fields ih => simp [fieldsObey, ih]

@[simp] theorem dictionariesObey_iff (ds : List Dictionary) :
    dictionariesObey P ds ↔ ∀ d ∈ ds, d.Obeys P := by
  induction ds with
  | nil => simp [dictionariesObey]
  | cons d ds ih => simp [dictionariesObey, ih]

end Lists

attribute [simp] Value.Obeys Native.Obeys

section Values

variable {P : Policy} {u v w : Value}

theorem Dictionary.obeys_iff (d : Dictionary) :
    d.Obeys P ↔ (∀ v ∈ d.methods, v.Obeys P) ∧ ∀ sup ∈ d.supers, sup.Obeys P := by
  obtain ⟨_, _, _, methods, supers⟩ := d
  simp [Dictionary.Obeys]

theorem Dictionary.obeys_placeholder (id : Ident) (traitName : String) :
    (placeholder id traitName).Obeys P := by
  simp [placeholder, Dictionary.Obeys]

theorem Builtin.obeys_iff (b : Builtin) :
    b.Obeys P ↔ b.native.Obeys P ∧ ∀ v ∈ b.defaults, v.Obeys P := by
  obtain ⟨_, _, native, _, defaults⟩ := b
  simp [Builtin.Obeys]

theorem obeys_of_lookup {fields : List (String × Value)} {name : String}
    (h : ∀ b ∈ fields, b.2.Obeys P) (hv : fields.lookup name = some v) : v.Obeys P :=
  h (name, v) (Assoc.mem_of_lookup hv)

namespace Value

theorem obeys_ofLiteral (l : Literal) : (ofLiteral l).Obeys P := by
  cases l <;> trivial

theorem obeys_of_member? {name : String} (h : v.Obeys P) (hw : v.member? name = some w) :
    w.Obeys P := by
  cases v with
  | record fields =>
    rw [Value.Obeys, fieldsObey_iff] at h
    exact obeys_of_lookup h (Option.filter_eq_some_iff.1 hw).1
  | _ => cases hw

theorem obeys_of_field {name : String} (h : v.Obeys P) (hw : v.field name = .ok w) :
    w.Obeys P := by
  cases v with
  | record fields =>
    rw [Value.Obeys, fieldsObey_iff] at h
    cases hlookup : fields.lookup name with
    | none => simp [field, hlookup] at hw
    | some x =>
      simp only [field, hlookup, Option.elim_some, Except.ok.injEq] at hw
      exact hw ▸ obeys_of_lookup h hlookup
  | tuple items =>
    rw [Value.Obeys, allObey_iff] at h
    cases hitem : (index? name).bind fun i => items[i]? with
    | none => simp [field, hitem] at hw
    | some x =>
      simp only [field, hitem, Option.elim_some, Except.ok.injEq] at hw
      obtain ⟨i, -, hi⟩ := Option.bind_eq_some_iff.1 hitem
      exact hw ▸ h x (List.mem_of_getElem? hi)
  | _ => cases hw

theorem obeys_of_upTo (hw : upTo v w = .ok u) : u.Obeys P := by
  unfold upTo at hw
  split at hw
  · cases hw; trivial
  · cases hw

end Value

theorem obeys_of_arithmetic {op : BinOp} {onInts : Int64 → Int64 → Except Cause Value}
    {onFloats : Float → Float → Float} (hints : ∀ a b u, onInts a b = .ok u → u.Obeys P)
    (hu : arithmetic op onInts onFloats v w = .ok u) : u.Obeys P := by
  unfold arithmetic at hu
  split at hu
  · exact hints _ _ u hu
  · cases hu; trivial
  · cases hu; trivial
  · cases hu; trivial
  · cases hu

/-- An operator makes numbers, truth values and strings, or appends lists. -/
theorem BinOp.obeys_of_eval {op : BinOp} (hv : v.Obeys P) (hw : w.Obeys P)
    (hu : op.eval v w = .ok u) : u.Obeys P := by
  cases op with
  | add =>
    simp only [BinOp.eval] at hu
    split at hu
    · cases hu; trivial
    · cases hu
      simp only [Value.Obeys, allObey_iff] at hv hw ⊢
      exact fun x hx => (List.mem_append.1 hx).elim (hv x) (hw x)
    · cases hu; trivial
    · cases hu; trivial
    · cases hu; trivial
    · cases hu; trivial
    · cases hu
  | sub | mul => exact obeys_of_arithmetic (fun _ _ _ h => by cases h; trivial) hu
  | div =>
    refine obeys_of_arithmetic (fun a b x h => ?_) hu
    split at h
    · cases h
    · cases h; trivial
  | mod =>
    simp only [BinOp.eval] at hu
    split at hu
    · split at hu
      · cases hu
      · cases hu; trivial
    · cases hu
  | eq | ne => cases hu; trivial
  | lt | gt | le | ge =>
    simp only [BinOp.eval] at hu
    cases hcompare : v.compare w with
    | error cause => rw [hcompare] at hu; cases hu
    | ok o => rw [hcompare] at hu; cases hu; trivial
  | and | or =>
    simp only [BinOp.eval] at hu
    split at hu
    · cases hu; trivial
    · cases hu

theorem UnOp.obeys_of_eval {op : UnOp} (hw : op.eval v = .ok w) : w.Obeys P := by
  unfold UnOp.eval at hw
  split at hw
  · cases hw; trivial
  · cases hw; trivial
  · cases hw; trivial
  · cases hw
  · cases hw

end Values

namespace Pattern

variable {P : Policy}

mutual

/-- What a pattern binds are parts of the value. -/
theorem obeys_of_mem_written : ∀ (p : Pattern) (v : Value), v.Obeys P →
    ∀ b ∈ p.written v, b.2.Obeys P
  | wildcard, v, hv => by simp [written]
  | var name, v, hv => by simpa [written] using hv
  | literal l, v, hv => by simp [written]
  | constructor name ps, v, hv => by
    cases v with
    | data type ctor vs =>
      rw [written]
      split
      · exact obeys_of_mem_writtenAll ps vs ((allObey_iff vs).1 hv)
      · simp
    | _ => simp [written]
  | tuple ps, v, hv => by
    cases v with
    | tuple vs =>
      rw [written]
      split
      · exact obeys_of_mem_writtenAll ps vs ((allObey_iff vs).1 hv)
      · simp
    | _ => simp [written]
  | record ps, v, hv => by
    cases v with
    | record fields => exact obeys_of_mem_writtenFields ps fields ((fieldsObey_iff fields).1 hv)
    | _ => simp [written]

theorem obeys_of_mem_writtenAll : ∀ (ps : List Pattern) (vs : List Value), (∀ v ∈ vs, v.Obeys P) →
    ∀ b ∈ writtenAll ps vs, b.2.Obeys P
  | [], vs, hvs => by simp [writtenAll]
  | p :: ps, vs, hvs => by
    cases vs with
    | nil => simp [writtenAll]
    | cons v vs =>
      have hfirst := obeys_of_mem_written p v (hvs v List.mem_cons_self)
      have hrest := obeys_of_mem_writtenAll ps vs fun w hw => hvs w (List.mem_cons_of_mem v hw)
      rw [writtenAll]
      split
      · exact fun b hb => (List.mem_append.1 hb).elim (hfirst b) (hrest b)
      · exact hfirst

theorem obeys_of_mem_writtenFields : ∀ (ps : List (String × Pattern))
    (fields : List (String × Value)), (∀ b ∈ fields, b.2.Obeys P) →
    ∀ b ∈ writtenFields ps fields, b.2.Obeys P
  | [], fields, hfields => by simp [writtenFields]
  | (name, p) :: ps, fields, hfields => by
    rw [writtenFields]
    cases hv : fields.lookup name with
    | none => simp
    | some v =>
      have hfirst := obeys_of_mem_written p v (obeys_of_lookup hfields hv)
      have hrest := obeys_of_mem_writtenFields ps fields hfields
      dsimp only
      split
      · exact fun b hb => (List.mem_append.1 hb).elim (hfirst b) (hrest b)
      · exact hfirst

end

end Pattern

/-- Scopes yet to come can be reached, and from a scope that can be reached so can its parent and
its values. -/
structure Store.Obeys (P : Policy) (st : Store) : Prop where
  fresh : ∀ {id}, st.scopes.size ≤ id → P.live id
  parent : ∀ {id scope p}, P.live id → st.scopes[id]? = some scope → scope.parent = some p →
    P.live p
  value : ∀ {id scope name v}, P.live id → st.scopes[id]? = some scope →
    scope.bindings.lookup name = some v → v.Obeys P

/-- From a scope that can be reached so can its parent and its values: what a native function relies
on that looks at the scopes. -/
structure Store.Shows (P : Policy) (st : Store) : Prop where
  parent : ∀ {id scope p}, P.live id → st.scopes[id]? = some scope → scope.parent = some p →
    P.live p
  value : ∀ {id scope name v}, P.live id → st.scopes[id]? = some scope →
    scope.bindings.lookup name = some v → v.Obeys P

theorem Store.Obeys.shows {P : Policy} {st : Store} (h : st.Obeys P) : st.Shows P :=
  ⟨h.parent, h.value⟩

namespace Store.Obeys

variable {P : Policy} {st : Store} {id : ScopeId} {name : String} {v : Value}

theorem live_ownerFrom (h : st.Obeys P) {fuel : Nat} {owner : ScopeId} (hid : P.live id)
    (howner : st.ownerFrom name fuel id = some owner) : P.live owner := by
  induction fuel generalizing id with
  | zero => cases howner
  | succ fuel ih =>
    rw [ownerFrom] at howner
    split at howner
    · cases howner
    · rename_i scope hscope
      split at howner
      · cases howner
        exact hid
      · obtain ⟨p, hparent, howner⟩ := Option.bind_eq_some_iff.1 howner
        exact ih (h.parent hid hscope hparent) howner

theorem get? (h : st.Obeys P) (hid : P.live id) (hv : st.get? id name = some v) : v.Obeys P := by
  rw [get?_eq_owner?] at hv
  obtain ⟨owner, howner, hv⟩ := Option.bind_eq_some_iff.1 hv
  obtain ⟨scope, hscope, hv⟩ := Option.bind_eq_some_iff.1 hv
  exact h.value (h.live_ownerFrom hid howner) hscope hv

theorem child (h : st.Obeys P) {parent : ScopeId} (hparent : P.live parent) :
    (st.child parent).1.Obeys P := by
  -- a scope of the new store is an old one, or the new one, which is empty
  have old {id : ScopeId} {scope : Scope} (hscope : (st.child parent).1.scopes[id]? = some scope) :
      st.scopes[id]? = some scope ∨ scope = { parent := some parent } := by
    rw [Store.child, Array.getElem?_push] at hscope
    split at hscope
    · exact .inr (Option.some.inj hscope).symm
    · exact .inl hscope
  refine ⟨fun {id} hid => h.fresh ?_, fun hid hscope hp => ?_, fun hid hscope hv => ?_⟩
  · simp only [Store.child, Array.size_push] at hid
    omega
  · rcases old hscope with hscope | rfl
    · exact h.parent hid hscope hp
    · exact Option.some.inj hp ▸ hparent
  · rcases old hscope with hscope | rfl
    · exact h.value hid hscope hv
    · cases hv

theorem define (h : st.Obeys P) (hv : v.Obeys P) : (st.define id name v).Obeys P := by
  have old {j : ScopeId} {scope : Scope} (hscope : (st.define id name v).scopes[j]? = some scope) :
      ∃ before, st.scopes[j]? = some before ∧ scope.parent = before.parent ∧
        (scope.bindings = before.bindings ∨
          scope.bindings = Assoc.insert name v before.bindings) := by
    rw [Store.define, Array.getElem?_modify] at hscope
    split at hscope
    · obtain ⟨before, hbefore, rfl⟩ := Option.map_eq_some_iff.1 hscope
      exact ⟨before, hbefore, rfl, .inr rfl⟩
    · exact ⟨scope, hscope, rfl, .inl rfl⟩
  refine ⟨fun {j} hj => h.fresh ?_, fun hj hscope hp => ?_, fun hj hscope hw => ?_⟩
  · simpa [Store.define] using hj
  · obtain ⟨before, hbefore, hparent, -⟩ := old hscope
    exact h.parent hj hbefore (hparent ▸ hp)
  · obtain ⟨before, hbefore, -, hbindings⟩ := old hscope
    rcases hbindings with hbindings | hbindings
    · exact h.value hj hbefore (hbindings ▸ hw)
    · rw [hbindings, Assoc.lookup_insert] at hw
      split at hw
      · exact Option.some.inj hw ▸ hv
      · exact h.value hj hbefore hw

end Store.Obeys

/-- Methods and defaults are within a policy. -/
structure Registry.Obeys (P : Policy) (r : Registry) : Prop where
  method : ∀ {traitName key method v}, r.lookup? traitName key method = some v → v.Obeys P
  userDefault : ∀ {traitName method f}, r.userDefault? traitName method = some f →
    f.follows P.toRules = true
  builtinDefault : ∀ {traitName method v}, r.builtinDefault? traitName method = some v → v.Obeys P

section Dictionaries

variable {P : Policy} {r : Registry} {traitName method : String} {key : TypeKey} {v : Value}

theorem Registry.obeys_defaultClosure {f : Func} (hf : f.follows P.toRules = true)
    (hglobal : P.live Store.global) : (defaultClosure traitName f).Obeys P :=
  ⟨hf, hglobal, fun _ h => by cases h⟩

theorem Registry.Obeys.addMethod (h : r.Obeys P) (hv : v.Obeys P) :
    (r.addMethod traitName key method v).Obeys P := by
  refine ⟨fun hw => ?_, h.userDefault, h.builtinDefault⟩
  rw [lookup?_addMethod] at hw
  split at hw
  · exact Option.some.inj hw ▸ hv
  · exact h.method hw

theorem Registry.Obeys.addInstance (h : r.Obeys P) (traitName : String) (key : TypeKey) :
    (r.addInstance traitName key).Obeys P :=
  ⟨fun hv => h.method (lookup?_addInstance r traitName key _ _ _ ▸ hv), h.userDefault,
    h.builtinDefault⟩

theorem Registry.Obeys.addBuiltinDefault (h : r.Obeys P) (traitName method : String) {v : Value}
    (hv : v.Obeys P) : (r.addBuiltinDefault traitName method v).Obeys P := by
  refine ⟨h.method, h.userDefault, fun hw => ?_⟩
  rw [builtinDefault?_addBuiltinDefault] at hw
  split at hw
  · exact Option.some.inj hw ▸ hv
  · exact h.builtinDefault hw

theorem Registry.Obeys.absorb (h : r.Obeys P) {hints : Hints}
    (hdefaults : ∀ d ∈ hints.traitDefaults, ∀ f ∈ d.2, f.follows P.toRules = true) :
    (r.absorb hints).Obeys P := by
  refine ⟨h.method, fun hf => ?_, h.builtinDefault⟩
  have hold : ∀ traitName method f,
      ((r.userDefaults.lookup traitName).bind fun t => t.lookup method) = some f →
      f.follows P.toRules = true := fun _ _ _ => h.userDefault
  unfold userDefault? Registry.absorb at hf
  revert hf
  generalize r.userDefaults = table at hold ⊢
  generalize hints.traitDefaults = defaults at hdefaults ⊢
  -- each entry of the new table is an old one or stands among those of its trait
  induction defaults generalizing table with
  | nil => exact hold _ _ _
  | cons d rest ih =>
    obtain ⟨hd, hrest⟩ := List.forall_mem_cons.1 hdefaults
    refine ih _ (fun traitName method f hf => ?_) hrest
    obtain ⟨entries, hentries, hf⟩ := Option.bind_eq_some_iff.1 hf
    rw [Assoc.lookup_insert] at hentries
    split at hentries
    · rw [← Option.some.inj hentries, Assoc.lookup_insertAll, Option.or_eq_some_iff] at hf
      rcases hf with hf | ⟨-, hf⟩
      · obtain ⟨g, hg, heq⟩ := List.mem_map.1 (List.mem_reverse.1 (Assoc.mem_of_lookup hf))
        cases heq
        exact hd _ hg
      · cases hknown : table.lookup d.1 with
        | none => rw [hknown] at hf; cases hf
        | some known =>
          rw [hknown] at hf
          exact hold _ _ _ (Option.bind_eq_some_iff.2 ⟨known, hknown, hf⟩)
    · exact hold _ _ _ (Option.bind_eq_some_iff.2 ⟨entries, hentries, hf⟩)

theorem Registry.Supplies.obeys (h : r.Supplies key traitName method v) (hr : r.Obeys P)
    (htraits : P.traits = true) (hglobal : P.live Store.global) : v.Obeys P := by
  cases h with
  | own hown => exact hr.method hown
  | userDefault id _ huser =>
    rw [Value.Obeys]
    exact obeys_defaultClosure (hr.userDefault huser) hglobal
  | builtinDefault _ _ hbuiltin => exact hr.builtinDefault hbuiltin
  | dispatched => exact htraits

theorem Dictionary.Contains.obeys {d d' : Dictionary} (h : d.Contains d') (hd : d.Obeys P) :
    d'.Obeys P := by
  induction h with
  | refl => exact hd
  | super hsup _ ih => exact ih (((Dictionary.obeys_iff _).1 hd).2 _ hsup)

theorem Registry.FoundIn.obeys {d : Dictionary} (h : r.FoundIn traitName method d v)
    (hd : d.Obeys P) : v.Obeys P := by
  obtain ⟨d', i, hcontains, -, -, hi⟩ := h
  exact ((Dictionary.obeys_iff d').1 (hcontains.obeys hd)).1 v (List.mem_of_getElem? hi)

mutual

/-- A dictionary is within a policy if all methods in it are, at every depth. -/
theorem Dictionary.obeys_of_contains : ∀ d : Dictionary,
    (∀ d', d.Contains d' → ∀ v ∈ d'.methods, v.Obeys P) → d.Obeys P
  | ⟨id, name, key, methods, supers⟩, h => by
    rw [Dictionary.obeys_iff]
    refine ⟨h _ (.refl _), fun sup hsup => ?_⟩
    exact Dictionary.obeys_of_mem supers (fun d hd d' hd' => h d' (.super hd hd')) sup hsup

theorem Dictionary.obeys_of_mem : ∀ ds : List Dictionary,
    (∀ d ∈ ds, ∀ d', d.Contains d' → ∀ v ∈ d'.methods, v.Obeys P) → ∀ d ∈ ds, d.Obeys P
  | [], _, d, hd => absurd hd List.not_mem_nil
  | e :: ds, h, d, hd => by
    rcases List.mem_cons.1 hd with heq | hd
    · exact heq ▸ Dictionary.obeys_of_contains e (h e List.mem_cons_self)
    · exact Dictionary.obeys_of_mem ds (fun d' hd' => h d' (List.mem_cons_of_mem e hd')) d hd

end

theorem Registry.Obeys.dictionary? (h : r.Obeys P) (htraits : P.traits = true)
    (hglobal : P.live Store.global) {next next' : Ident} {d : Dictionary}
    (hd : r.dictionary? traitName key next = some (d, next')) : d.Obeys P := by
  refine Dictionary.obeys_of_contains d fun d' hd' v hv => ?_
  obtain ⟨-, first, hmethods⟩ := (lists_of_dictionary? hd).2 d' hd'
  obtain ⟨i, hi⟩ := List.mem_iff_getElem?.1 hv
  rw [hmethods, getElem?_methodsFrom] at hi
  obtain ⟨name, -, rfl⟩ := Option.map_eq_some_iff.1 hi
  exact (methodOrDefault_supplies r key _ _ name).obeys h htraits hglobal

mutual

theorem Dictionary.obeys_of_findSuper : ∀ (d : Dictionary) {d' : Dictionary}, d.Obeys P →
    d.findSuper traitName = some d' → d'.Obeys P
  | ⟨id, name, key, methods, supers⟩, d', hd, h => by
    rw [findSuper] at h
    exact Dictionary.obeys_of_findIn supers ((Dictionary.obeys_iff _).1 hd).2 h

theorem Dictionary.obeys_of_findIn : ∀ (ds : List Dictionary) {d' : Dictionary},
    (∀ d ∈ ds, d.Obeys P) → findIn traitName ds = some d' → d'.Obeys P
  | [], d', hds, h => by cases h
  | d :: ds, d', hds, h => by
    rw [findIn] at h
    split at h
    · cases h
      exact hds d List.mem_cons_self
    · split at h
      · rename_i found hfound
        cases h
        exact Dictionary.obeys_of_findSuper d (hds d List.mem_cons_self) hfound
      · exact Dictionary.obeys_of_findIn ds (fun e he => hds e (List.mem_cons_of_mem d he)) h

end

theorem obeys_of_witnessBindings? {first : Dictionary} (hfirst : (Value.dictionary first).Obeys P)
    (ps : List WitnessParam) (ds : List Dictionary) (hds : ∀ d ∈ ds, (Value.dictionary d).Obeys P)
    {bs : List (String × Value)} (h : witnessBindings? first ps ds = some bs) :
    ∀ b ∈ bs, b.2.Obeys P := by
  induction ps generalizing ds bs with
  | nil =>
    cases h
    exact fun _ hb => absurd hb List.not_mem_nil
  | cons p ps ih =>
    cases ds with
    | cons d ds =>
      rw [witnessBindings?] at h
      obtain ⟨rest, hrest, h⟩ := Option.bind_eq_some_iff.1 h
      cases h
      have hrest := ih ds (fun e he => hds e (List.mem_cons_of_mem d he)) hrest
      exact List.forall_mem_cons.2 ⟨hds d List.mem_cons_self, hrest⟩
    | nil =>
      rw [witnessBindings?] at h
      obtain ⟨d, hd, h⟩ := Option.bind_eq_some_iff.1 h
      obtain ⟨rest, hrest, h⟩ := Option.bind_eq_some_iff.1 h
      cases h
      have hrest := ih [] hds hrest
      refine List.forall_mem_cons.2 ⟨fun htraits => ?_, hrest⟩
      exact Dictionary.obeys_of_findSuper first (hfirst htraits) hd

theorem obeys_of_mem_plainArgs {args : List Value} (h : ∀ v ∈ args, v.Obeys P) :
    ∀ v ∈ plainArgs args, v.Obeys P :=
  fun v hv => h v ((List.dropWhile_sublist _).subset hv)

theorem obeys_of_mem_leadingDictionaries {args : List Value} (h : ∀ v ∈ args, v.Obeys P) :
    ∀ d ∈ leadingDictionaries args, (Value.dictionary d).Obeys P := by
  fun_induction leadingDictionaries args with
  | case1 d rest ih =>
    intro e he
    rcases List.mem_cons.1 he with rfl | he
    · exact h (.dictionary e) List.mem_cons_self
    · exact ih (fun v hv => h v (List.mem_cons_of_mem _ hv)) e he
  | case2 => exact fun _ he => absurd he List.not_mem_nil

end Dictionaries

namespace WitnessFrame

variable {P : Policy} {f g : WitnessFrame}

theorem obeys_empty (htraits : P.traits = true) : ({} : WitnessFrame).Obeys P :=
  ⟨htraits, fun _ he => absurd he List.not_mem_nil⟩

theorem Obeys.insert (h : f.Obeys P) {ty : Ty} (hty : P.evidence ty) (key : String) :
    (f.insert key ty).Obeys P :=
  ⟨h.traits, fun e he => (Assoc.of_mem_insert he).elim (fun heq => heq ▸ hty) (h.evidence e)⟩

theorem obeys_single (htraits : P.traits = true) (key : String) {ty : Ty} (hty : P.evidence ty) :
    (single key ty).Obeys P :=
  ⟨htraits, fun _ he => List.mem_singleton.1 he ▸ hty⟩

theorem Obeys.foldl_insert {ty : Ty} (hty : P.evidence ty) (keys : List String) (h : f.Obeys P) :
    (keys.foldl (fun frame key => frame.insert key ty) f).Obeys P := by
  induction keys generalizing f with
  | nil => exact h
  | cons key keys ih => exact ih (h.insert hty key)

theorem Obeys.merge (hf : f.Obeys P) (hg : g.Obeys P) : (f.merge g).Obeys P := by
  have insertAll (new table : List (String × Ty)) (hnew : ∀ e ∈ new, P.evidence e.2)
      (htable : ∀ e ∈ table, P.evidence e.2) :
      ∀ e ∈ Assoc.insertAll new table, P.evidence e.2 := by
    induction new generalizing table with
    | nil => exact htable
    | cons e new ih =>
      refine ih _ (fun e' he' => hnew e' (List.mem_cons_of_mem e he')) fun e' he' => ?_
      rcases Assoc.of_mem_insert he' with heq | he'
      · exact heq ▸ hnew e List.mem_cons_self
      · exact htable e' he'
  exact ⟨hf.traits, insertAll g.entries f.entries hg.evidence hf.evidence⟩

theorem Obeys.get? (h : f.Obeys P) {key : String} {ty : Ty} (hty : f.get? key = some ty) :
    P.evidence ty :=
  h.evidence (key, ty) (Assoc.mem_of_lookup hty)

end WitnessFrame

namespace WitnessStack

variable {P : Policy} {ws : WitnessStack}

theorem evidence_of_lookup (h : ∀ f ∈ ws.toList, f.Obeys P) {key : String} {ty : Ty}
    (hty : ws.lookup key = some ty) : P.evidence ty := by
  obtain ⟨f, hf, hget⟩ := List.exists_of_findSome?_eq_some hty
  exact (h f (List.mem_reverse.1 hf)).get? hget

theorem obeys_merged (h : ∀ f ∈ ws.toList, f.Obeys P) {f : WitnessFrame}
    (hf : ws.merged = some f) : f.Obeys P := by
  have foldl (frames : List WitnessFrame) (g : WitnessFrame) (hframes : ∀ f ∈ frames, f.Obeys P)
      (hg : g.Obeys P) : (frames.foldl WitnessFrame.merge g).Obeys P := by
    induction frames generalizing g with
    | nil => exact hg
    | cons f frames ih =>
      exact ih _ (fun f' hf' => hframes f' (List.mem_cons_of_mem f hf'))
        (hg.merge (hframes f List.mem_cons_self))
  unfold merged at hf
  split at hf
  · cases hf
  · rename_i hsome
    obtain ⟨g, hg, -⟩ := List.all_eq_false.1 (Bool.eq_false_iff.2 hsome)
    exact Option.some.inj hf ▸ foldl ws.toList {} h (WitnessFrame.obeys_empty (h g hg).traits)

end WitnessStack

/-- All that a program can get hold of on the machine is within the policy. -/
structure Machine.Obeys (P : Policy) (m : Machine) : Prop where
  global : P.live Store.global
  store : m.store.Obeys P
  registry : m.registry.Obeys P
  witnesses : ∀ f ∈ m.witnesses.toList, f.Obeys P

structure Resolution.Obeys (P : Policy) (r : Resolution) : Prop where
  callee : r.callee.Obeys P
  args : ∀ v ∈ r.args, v.Obeys P
  witness : ∀ {traitName ty}, r.witness = some (traitName, ty) → P.evidence ty

theorem Resolution.Obeys.frame {P : Policy} {r : Resolution} (h : r.Obeys P)
    (htraits : P.traits = true) {f : WitnessFrame} (hf : r.frame = some f) : f.Obeys P := by
  obtain ⟨⟨traitName, ty⟩, hwitness, rfl⟩ := Option.map_eq_some_iff.1 hf
  exact WitnessFrame.obeys_single htraits _ (h.witness hwitness)

namespace Machine.Obeys

variable {P : Policy} {m : Machine}

/-- An expected type has a known head, or is evidence itself. -/
theorem evidence_of_expectedType (h : m.Obeys P) (htraits : P.traits = true)
    {method : ClassMethod} {site : CallSite} {ty : Ty} {source : ContextSource}
    (hty : m.expectedType method site = some (ty, source)) : P.evidence ty := by
  have ofWitness (hw : m.resultWitness = some (ty, source)) : P.evidence ty := by
    obtain ⟨ty', hlookup, heq⟩ := Option.map_eq_some_iff.1 hw
    cases heq
    exact WitnessStack.evidence_of_lookup h.witnesses hlookup
  have known (o : Option Ty) (src : ContextSource)
      (ho : (o.filter fun t => !t.hasVarHead).map (fun t => (t, src)) = some (ty, source)) :
      P.evidence ty := by
    obtain ⟨ty', hfilter, heq⟩ := Option.map_eq_some_iff.1 ho
    cases heq
    have hknown := (Option.filter_eq_some_iff.1 hfilter).2
    exact P.evidence_of_known htraits (by simpa using hknown)
  unfold expectedType at hty
  -- container, type context, annotation, then what the analyser or the evidence says
  simp only [Option.orElse_eq_orElse, Option.orElse_eq_or, Option.or_eq_some_iff] at hty
  rcases hty with hty | ⟨-, hty | ⟨-, hty | ⟨-, hty⟩⟩⟩
  · obtain ⟨name, -, heq⟩ := Option.map_eq_some_iff.1 hty
    cases heq
    exact P.evidence_of_known htraits rfl
  · exact known _ _ hty
  · exact known _ _ hty
  · split at hty
    · split at hty
      · exact ofWitness hty
      · rename_i hknown
        cases hty
        exact P.evidence_of_known htraits (by simpa using hknown)
    · split at hty
      · exact ofWitness hty
      · cases hty

/-- What the declared result of a closure tells has a known head. -/
theorem returnWitness {c : Closure} (hc : c.Obeys P) {scope : ScopeId} {f : WitnessFrame}
    (hf : m.returnWitness c scope = some f) : f.Obeys P := by
  obtain ⟨declared, hdeclared, hf⟩ := Option.bind_eq_some_iff.1 hf
  have htraits := Func.traits_of_follows hc.code hdeclared
  dsimp only at hf
  by_cases hhead : (m.resolveType declared scope).hasVarHead = true
  · rw [if_pos hhead] at hf
    cases hf
  · rw [if_neg hhead] at hf
    have hty := P.evidence_of_known htraits (Bool.eq_false_iff.2 hhead)
    have hempty := WitnessFrame.obeys_empty htraits
    exact Option.some.inj hf ▸ WitnessFrame.Obeys.foldl_insert hty _ hempty

/-- The calls in progress, expected types, container types, output and identities do not count. -/
theorem congr {m' : Machine} (h : m.Obeys P) (hstore : m'.store = m.store)
    (hregistry : m'.registry = m.registry) (hwitnesses : m'.witnesses = m.witnesses) :
    m'.Obeys P :=
  ⟨h.global, hstore ▸ h.store, hregistry ▸ h.registry, hwitnesses ▸ h.witnesses⟩

/-- Dropping frames of evidence leaves nothing new. -/
theorem cut (h : m.Obeys P) (depth : Nat) :
    { m with witnesses := m.witnesses.cut depth }.Obeys P := by
  refine ⟨h.global, h.store, h.registry, fun f hf => ?_⟩
  rw [Stack.toList_cut] at hf
  exact h.witnesses f (List.mem_of_mem_take hf)

end Machine.Obeys

section Resolving

variable {P : Policy} {mach mach' : Machine} {s : Setting} {m : ClassMethod} {args : List Value}
  {site : CallSite} {route : Route} {r : Resolution}

theorem Registry.Justifies.obeys {reg : Registry} {dropped : List Dictionary} {callee : Value}
    (h : reg.Justifies m dropped route callee) (hreg : reg.Obeys P)
    (hglobal : P.live Store.global) (hdropped : ∀ d ∈ dropped, d.Obeys P) : callee.Obeys P := by
  cases route with
  | dictionary =>
    obtain ⟨d, hd, hfound⟩ := h
    exact hfound.obeys (hdropped d hd)
  | evidence | context | argument =>
    obtain ⟨key, hkey⟩ := h
    exact hreg.method hkey
  | userDefault =>
    obtain ⟨f, id, huser, rfl⟩ := h
    rw [Value.Obeys]
    exact obeys_defaultClosure (hreg.userDefault huser) hglobal
  | builtinDefault => exact hreg.builtinDefault h

/-- The evidence that comes with a resolution is the type that was expected. -/
theorem Machine.Resolves.witness_expected (h : mach.Resolves m args site route r mach')
    {traitName : String} {ty : Ty} (hw : r.witness = some (traitName, ty)) :
    ∃ source, mach.expectedType m site = some (ty, source) := by
  have fallback {fb : Fallback} (hselect : mach.select m args site = .inr fb)
      (hw : fb.witness m (mach.registry.defaultKey m fb) = some (traitName, ty)) :
      ∃ source, mach.expectedType m site = some (ty, source) := by
    unfold Fallback.witness at hw
    split at hw
    · obtain ⟨⟨ty', source⟩, hcontext, heq⟩ := Option.map_eq_some_iff.1 hw
      cases heq
      exact ⟨source, context_of_select hselect ▸ hcontext⟩
    · cases hw
  cases h with
  | dictionary | evidence => cases hw
  | context _ _ hexpected _ _ hr =>
    subst hr
    cases hw
    exact ⟨_, hexpected⟩
  | argument _ _ _ _ hr =>
    subst hr
    cases hw
  | userDefault hselect => exact fallback hselect hw
  | builtinDefault hselect => exact fallback hselect hw

theorem Machine.Obeys.withDefault (h : mach.Obeys P) {f : Func} (hf : f.follows P.toRules = true)
    (place : Option (TypeKey × Bool)) : (mach.withDefault m f place).Obeys P := by
  refine ⟨h.global, h.store, ?_, h.witnesses⟩
  cases place with
  | none => exact h.registry
  | some place => exact h.registry.addMethod (Registry.obeys_defaultClosure hf h.global)

theorem Machine.Resolves.store_eq (h : mach.Resolves m args site route r mach') :
    mach'.store = mach.store := by
  cases h <;> rfl

theorem Machine.Resolves.obeys (h : mach.Resolves m args site route r mach')
    (htraits : P.traits = true) (hm : mach.Obeys P) (hargs : ∀ v ∈ args, v.Obeys P) :
    r.Obeys P ∧ mach'.Obeys P := by
  obtain ⟨dropped, rfl, hjustified, -⟩ := h.justified
  have hdropped : ∀ d ∈ dropped, d.Obeys P := fun d hd =>
    hargs (.dictionary d) (List.mem_append_left _ (List.mem_map_of_mem hd)) htraits
  refine ⟨⟨hjustified.obeys hm.registry hm.global hdropped,
    fun v hv => hargs v (List.mem_append_right _ hv), fun hw => ?_⟩, ?_⟩
  · obtain ⟨source, hexpected⟩ := h.witness_expected hw
    exact hm.evidence_of_expectedType htraits hexpected
  · cases h with
    | userDefault _ huser => exact hm.withDefault (hm.registry.userDefault huser) _
    | _ => exact hm

end Resolving

end TraitLang
