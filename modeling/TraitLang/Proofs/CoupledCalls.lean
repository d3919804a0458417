import TraitLang.Proofs.Coupling

/-!
Two runs side by side, continued: what it takes to apply a callable. Binding arguments, running
natives and reducing a callee follow themselves if the ways to apply callables do.
-/
namespace TraitLang

/-- Results of binding arguments that are the same up to masked faults. -/
inductive SameBinding (g : Fault → Fault) : Binding → Binding → Prop where
  | ready (scope : ScopeId) : SameBinding g (.ready scope) (.ready scope)
  | short {v v' : Value} : SameValue g v v' → SameBinding g (.short v) (.short v')

structure SamePending (g : Fault → Fault) (p p' : Pending) : Prop where
  callee : SameValue g p.callee p'.callee
  args : SameValues g p.args p'.args
  witness : p.witness = p'.witness

inductive SameReduced (g : Fault → Fault) : Reduced → Reduced → Prop where
  | call {p p' : Pending} : SamePending g p p' → SameReduced g (.call p) (.call p')
  | short {v v' : Value} : SameValue g v v' → SameReduced g (.short v) (.short v')

namespace SameValues

variable {g : Fault → Fault} {vs vs' ws ws' : List Value} {v v' : Value}

theorem nil : SameValues g [] [] := rfl

theorem cons (hv : SameValue g v v') (hvs : SameValues g vs vs') :
    SameValues g (v :: vs) (v' :: vs') := by
  rw [SameValues, List.map_cons, hv, hvs, ← List.map_cons]

theorem nil_inv (h : SameValues g [] vs') : vs' = [] := by simpa [SameValues] using h.symm

theorem cons_inv (h : SameValues g (v :: vs) ws) :
    ∃ v' vs', ws = v' :: vs' ∧ SameValue g v v' ∧ SameValues g vs vs' := by
  cases ws with
  | nil => simp [SameValues] at h
  | cons v' vs' => exact ⟨v', vs', rfl, List.cons.inj h⟩

theorem append (hvs : SameValues g vs vs') (hws : SameValues g ws ws') :
    SameValues g (vs ++ ws) (vs' ++ ws') := by
  rw [SameValues, List.map_append, hvs, hws, ← List.map_append]

theorem drop (h : SameValues g vs vs') (n : Nat) : SameValues g (vs.drop n) (vs'.drop n) := by
  rw [SameValues, List.map_drop, h, ← List.map_drop]

theorem length_eq (h : SameValues g vs vs') : vs.length = vs'.length := by
  simpa using congrArg List.length h

theorem isEmpty_eq (h : SameValues g vs vs') : vs.isEmpty = vs'.isEmpty := by
  simpa using congrArg List.isEmpty h

theorem plainArgs (h : SameValues g vs vs') : SameValues g (plainArgs vs) (plainArgs vs') := by
  rw [SameValues, ← plainArgs_mask, h, plainArgs_mask]

theorem headD (h : SameValues g vs vs') : SameValue g (vs.headD .unit) (vs'.headD .unit) := by
  cases vs with
  | nil => rw [h.nil_inv]; rfl
  | cons v vs =>
    obtain ⟨v', vs', rfl, hv, -⟩ := h.cons_inv
    exact hv

theorem list (h : SameValues g vs vs') : SameValue g (.list vs) (.list vs') := by
  rw [SameValue, Value.mask, Value.mask, maskAll_eq, maskAll_eq, h]

theorem partialApp (id : Ident) (hv : SameValue g v v') (h : SameValues g vs vs') (n : Nat) :
    SameValue g (.partialApp id v vs n) (.partialApp id v' vs' n) := by
  rw [SameValue, Value.mask, Value.mask, maskAll_eq, maskAll_eq, hv, h]

end SameValues

namespace Coupling.Follows

variable {κ : Coupling} {a a' : Apply}

theorem partialApp {callee callee' : Value} {args args' : List Value} (remaining : Nat)
    (hcallee : SameValue κ.mask callee callee') (hargs : SameValues κ.mask args args') :
    κ.Follows (SameValue κ.mask) (Run.partialApp callee args remaining)
      (Run.partialApp callee' args' remaining) :=
  fresh_bind fun id => pure (hargs.partialApp id hcallee remaining)

theorem evalValue (hκ : κ.Lawful) (ha : κ.Applies a a') (ctx : EvalCtx) (scope : ScopeId)
    (e : Spanned Expr) :
    κ.Follows (SameValue κ.mask) (evalValue a ctx scope e) (evalValue a' ctx scope e) :=
  settled ha (node hκ ha _ scope e)

theorem bindParams (hκ : κ.Lawful) (ha : κ.Applies a a') (c : Closure) (scope : ScopeId)
    (supplied : Nat) (ps : List Param) {vs vs' : List Value} (h : SameValues κ.mask vs vs') :
    κ.Follows Eq (Run.bindParams a c scope supplied ps vs)
      (Run.bindParams a' c scope supplied ps vs') := by
  induction ps generalizing vs vs' with
  | nil => rw [Run.bindParams, Run.bindParams]; exact pure rfl
  | cons p ps ih =>
    cases vs with
    | nil =>
      obtain rfl := h.nil_inv
      rw [Run.bindParams, Run.bindParams]
      split
      · refine bind (evalValue hκ ha {} c.scope _) fun v v' hv => ?_
        exact bind (define scope p.name hv) fun _ _ _ => ih .nil
      · exact fail _
    | cons v vs =>
      obtain ⟨v', vs', rfl, hv, hvs⟩ := h.cons_inv
      rw [Run.bindParams, Run.bindParams]
      exact bind (define scope p.name hv) fun _ _ _ => ih hvs

theorem bindDictionaries (f : Func) (scope : ScopeId) {ds ds' : List Dictionary}
    (h : ds.map (Dictionary.mask κ.mask) = ds'.map (Dictionary.mask κ.mask)) :
    κ.Follows Eq (Run.bindDictionaries f scope ds) (Run.bindDictionaries f scope ds') := by
  cases ds with
  | nil =>
    obtain rfl : ds' = [] := by simpa using h.symm
    exact pure rfl
  | cons d ds =>
    cases ds' with
    | nil => simp at h
    | cons d' ds' =>
      have hlen : ds.length = ds'.length := by simpa using congrArg List.length h
      have hbindings : (witnessBindings? d f.witnessParams (d :: ds)).map
            (List.map (maskBinding κ.mask)) =
          (witnessBindings? d' f.witnessParams (d' :: ds')).map
            (List.map (maskBinding κ.mask)) := by
        rw [← witnessBindings?_mask, h, (List.cons.inj h).1, witnessBindings?_mask]
      rw [Run.bindDictionaries, Run.bindDictionaries, hlen]
      refine bind (R := SameBindings κ.mask) ?_ fun bs bs' hbs => defineAll scope hbs
      cases hbs : witnessBindings? d f.witnessParams (d :: ds) with
      | none =>
        have hbs' : witnessBindings? d' f.witnessParams (d' :: ds') = none := by
          simpa [hbs] using hbindings.symm
        rw [hbs']
        exact fail _
      | some bs =>
        obtain ⟨bs', hbs', hsame⟩ : ∃ bs',
            witnessBindings? d' f.witnessParams (d' :: ds') = some bs' ∧
              bs'.map (maskBinding κ.mask) = bs.map (maskBinding κ.mask) := by
          simpa [hbs] using hbindings.symm
        rw [hbs']
        exact pure hsame.symm

theorem bindTypes (scope : ScopeId) (site : CallSite) :
    κ.Follows Eq (Run.bindTypes scope site) (Run.bindTypes scope site) := by
  refine machine_bind fun m m' hm => ?_
  rw [hm.hints]
  exact defineAll scope rfl

theorem bindSurplus (f : Func) (scope : ScopeId) {plain plain' : List Value}
    (h : SameValues κ.mask plain plain') :
    κ.Follows Eq (Run.bindSurplus f scope plain) (Run.bindSurplus f scope plain') := by
  unfold Run.bindSurplus
  split
  · split
    · exact define scope _ (h.drop _).list
    · exact pure rfl
  · exact pure rfl

theorem bindScope (hκ : κ.Lawful) (ha : κ.Applies a a') (c : Closure) {args args' : List Value}
    (site : CallSite) (h : SameValues κ.mask args args') :
    κ.Follows Eq (Run.bindScope a c args site) (Run.bindScope a' c args' site) := by
  have hdicts : (leadingDictionaries args).map (Dictionary.mask κ.mask) =
      (leadingDictionaries args').map (Dictionary.mask κ.mask) := by
    rw [← leadingDictionaries_mask, h, leadingDictionaries_mask]
  have hplain := h.plainArgs
  refine newScope_bind c.scope fun scope => ?_
  refine bind (bindDictionaries c.func scope hdicts) fun _ _ _ => ?_
  refine bind (bindTypes scope site) fun _ _ _ => ?_
  rw [hplain.length_eq]
  refine bind (bindParams hκ ha c scope _ c.func.fixedParams hplain) fun _ _ _ => ?_
  exact bind (bindSurplus c.func scope hplain) fun _ _ _ => pure rfl

theorem bindArguments (hκ : κ.Lawful) (ha : κ.Applies a a') (id : Ident) (c : Closure)
    {args args' : List Value} (site : CallSite) (h : SameValues κ.mask args args') :
    κ.Follows (SameBinding κ.mask) (Run.bindArguments a id c args site)
      (Run.bindArguments a' id c args' site) := by
  unfold Run.bindArguments
  dsimp only
  rw [h.plainArgs.length_eq, h.isEmpty_eq]
  split
  · split
    · exact fail _
    · exact bind (partialApp _ rfl h) fun _ _ hv => pure (.short hv)
  · split
    · exact fail _
    · exact bind (bindScope hκ ha c site h) fun scope scope' hs => pure (hs ▸ .ready scope)

theorem callGlobal (ha : κ.Applies a a') (name : String) {args args' : List Value}
    (h : SameValues κ.mask args args') :
    κ.Follows (SameValue κ.mask) (Run.callGlobal a name args) (Run.callGlobal a' name args') :=
  bind (lookup Store.global name) fun _ _ hcallee => ha _ hcallee h

theorem forM {σ : Type} {f f' : σ → Run Unit} (hf : ∀ x, κ.Follows Eq (f x) (f' x))
    (xs : List σ) : κ.Follows Eq (xs.forM f) (xs.forM f') := by
  induction xs with
  | nil => exact pure rfl
  | cons x xs ih => exact bind (hf x) fun _ _ _ => ih

theorem changeRegistry (f f' : Registry → Registry)
    (hf : ∀ r r', r.mask κ.mask = r'.mask κ.mask → (f r).mask κ.mask = (f' r').mask κ.mask) :
    κ.Follows Eq (Run.modify fun m => { m with registry := f m.registry })
      (Run.modify fun m => { m with registry := f' m.registry }) :=
  fun _ _ hm => .done rfl { hm with registry := hf _ _ hm.registry }

theorem addMethod (traitName : String) (key : TypeKey) (method : String) {v v' : Value}
    (hv : SameValue κ.mask v v') :
    κ.Follows Eq
      (Run.modify fun m => { m with registry := m.registry.addMethod traitName key method v })
      (Run.modify fun m =>
        { m with registry := m.registry.addMethod traitName key method v' }) := by
  refine changeRegistry (·.addMethod traitName key method v) (·.addMethod traitName key method v')
    fun r r' h => ?_
  rw [Registry.mask, Registry.mask, Registry.relabel_addMethod, Registry.relabel_addMethod,
    ← Value.mask_eq, hv, ← Registry.mask, h]

theorem declare (item : Item) : κ.Follows Eq (Run.declare item) (Run.declare item) := by
  cases item with
  | func f => exact fresh_bind fun _ => define _ _ rfl
  | data d =>
    refine forM (fun c => ?_) _
    split
    · exact define _ _ rfl
    · exact fresh_bind fun _ => define _ _ rfl
  | traitDecl t =>
    refine bind (changeRegistry (·.declare t) (·.declare t) fun r r' h => ?_) fun _ _ _ =>
      forM (fun _ => fresh_bind fun _ => define _ _ rfl) _
    exact congrArg (·.declare t) h
  | inst d =>
    let add (r : Registry) := r.addInstance d.traitName (.ofTypes d.types)
    refine bind (changeRegistry add add fun r r' h => ?_) fun _ _ _ =>
      forM (fun _ => fresh_bind fun _ => addMethod _ _ _ rfl) _
    rw [Registry.mask, Registry.mask, Registry.relabel_addInstance, Registry.relabel_addInstance]
    exact congrArg add h
  | const c => exact pure rfl

theorem defineConst (hκ : κ.Lawful) (ha : κ.Applies a a') (item : Item) :
    κ.Follows Eq (Run.defineConst a item) (Run.defineConst a' item) := by
  cases item with
  | const c => exact bind (evalValue hκ ha _ _ _) fun _ _ hv => define _ _ hv
  | _ => exact pure rfl

theorem loading (hκ : κ.Lawful) (ha : κ.Applies a a') (p : AnalyzedProgram) :
    κ.Follows Eq (Run.loading a p) (Run.loading a' p) := by
  refine bind (R := Eq) (fun m m' hm => .done rfl ?_) fun _ _ _ =>
    bind (forM declare _) fun _ _ _ => forM (defineConst hκ ha) _
  have hmask (r : Registry) : (r.absorb p.hints).mask κ.mask =
      (r.mask κ.mask).absorb (p.hints.relabel (masking κ.mask)) :=
    Registry.relabel_absorb (fun _ => rfl) r p.hints
  exact { hm with
    registry := by rw [hmask, hm.registry, hmask]
    file := congrArg (if p.program.file.isEmpty then · else p.program.file) hm.file
    hints := rfl }

theorem register {r r' : Registration} (h : SameRegistration κ.mask r r') :
    κ.Follows Eq (Run.register r) (Run.register r') := by
  cases h with
  | @traitDefault traitName method v v' hv =>
    refine changeRegistry (·.addBuiltinDefault traitName method v)
      (·.addBuiltinDefault traitName method v') fun r r' h => ?_
    rw [Registry.mask, Registry.mask, Registry.relabel_addBuiltinDefault,
      Registry.relabel_addBuiltinDefault, ← Value.mask_eq, hv, ← Registry.mask, h]
  | instanceMethod traitName types method hv => exact addMethod traitName _ method hv
  | bridge name => exact fun _ _ hm => .done rfl { hm with bridge := rfl }
  | fallback name => exact fun _ _ hm => .done rfl { hm with fallback := rfl }

theorem depths {next next' : Nat → Nat → Nat → Action} (hκ : κ.Lawful)
    (h : ∀ i j k, κ.Follows (SameValue κ.mask) (Run.perform a (next i j k))
      (Run.perform a' (next' i j k))) :
    κ.Follows (SameValue κ.mask) (Run.perform a (.depths next))
      (Run.perform a' (.depths next')) := by
  intro m m' hm
  show κ.Outcomes _ (Run.bind (Run.reach .depths) _ _ _) (Run.bind (Run.reach .depths) _ _ _)
  unfold Run.bind Run.reach
  cases hb : κ.left.breakpoint .depths m with
  | true => exact .halted _ _
  | false =>
    rw [hκ.reach .depths hm hb]
    show κ.Outcomes _
      (Run.perform a (next m.calls.depth m.witnesses.depth m.typeContext.depth) κ.left m)
      (Run.perform a' (next' m'.calls.depth m'.witnesses.depth m'.typeContext.depth) κ.right m')
    rw [hκ.depths hm hb, hκ.witnesses hm.frames, hm.typeContext]
    exact h _ _ _ m m' hm

theorem limits {next next' : Limits → Action} (hlimits : κ.LimitsAgree)
    (h : ∀ l, κ.Follows (SameValue κ.mask) (Run.perform a (next l)) (Run.perform a' (next' l))) :
    κ.Follows (SameValue κ.mask) (Run.perform a (.limits next))
      (Run.perform a' (.limits next')) := by
  intro m m' hm
  show κ.Outcomes _ (Run.bind (Run.reach .limits) _ _ _) (Run.bind (Run.reach .limits) _ _ _)
  unfold Run.bind Run.reach
  cases hb : κ.left.breakpoint .limits m with
  | true => exact .halted _ _
  | false =>
    obtain ⟨hb', hlimits⟩ := hlimits hm hb
    rw [hb']
    show κ.Outcomes _ (Run.perform a (next κ.left.limits) κ.left m)
      (Run.perform a' (next' κ.right.limits) κ.right m')
    rw [hlimits]
    exact h _ m m' hm

theorem perform (hκ : κ.Lawful) (ha : κ.Applies a a') {act act' : Action}
    (hlimits : act.IgnoresLimits ∨ κ.LimitsAgree) (h : SameAction κ.mask act act') :
    κ.Follows (SameValue κ.mask) (Run.perform a act) (Run.perform a' act') := by
  induction h with
  | done hv => exact pure hv
  | fail hf => exact throw hf
  | write text _ ih => exact bind (write text) fun _ _ _ => ih hlimits
  | fresh _ ih => exact fresh_bind fun id => ih id (hlimits.imp_left fun h => h id)
  | depths _ ih => exact depths hκ fun i j k => ih i j k (hlimits.imp_left fun h => h i j k)
  | limits _ ih =>
    have hagree : κ.LimitsAgree := hlimits.resolve_left id
    exact limits hagree fun l => ih l (.inr hagree)
  | look _ ih =>
    exact machine_bind fun m m' hm =>
      ih _ _ _ _ hm.registry hm.store (hlimits.imp_left fun h => h _ _)
  | newScope parent _ ih =>
    exact newScope_bind parent fun id => ih id (hlimits.imp_left fun h => h id)
  | define scope name hv _ ih => exact bind (define scope name hv) fun _ _ _ => ih hlimits
  | assign scope name hv _ ih =>
    refine bind (attempt (assign scope name hv)) fun r r' hr => ?_
    cases hr with
    | ok => exact ih true (hlimits.imp_left fun h => h true)
    | error => exact ih false (hlimits.imp_left fun h => h false)
  | apply site hcallee hargs _ ih =>
    exact bind (attempt (ha site hcallee hargs)) fun r r' hr =>
      ih r r' hr (hlimits.imp_left fun h => h r)
  | call name hargs _ ih =>
    exact bind (attempt (callGlobal ha name hargs)) fun r r' hr =>
      ih r r' hr (hlimits.imp_left fun h => h r)
  | eval e _ ih =>
    exact bind (attempt (evalValue hκ ha {} Store.global e)) fun r r' hr =>
      ih r r' hr (hlimits.imp_left fun h => h r)
  | resolve method site hargs _ ih =>
    exact bind (attempt (hκ.resolve method site hargs)) fun r r' hr =>
      ih r r' hr (hlimits.imp_left fun h => h r)
  | load p _ ih =>
    exact bind (attempt (loading hκ ha p)) fun r r' hr =>
      ih r r' hr (hlimits.imp_left fun h => h r)
  | register hr _ ih => exact bind (register hr) fun _ _ _ => ih hlimits

theorem ignoresLimits_core (c : CoreNative) (args : List Value) :
    (c.action args).IgnoresLimits := by
  rcases c.action_cases args with ⟨v, h⟩ | ⟨cause, h⟩ | ⟨text, v, h⟩ | ⟨next, h⟩
  · rw [h]; trivial
  · rw [h]; trivial
  · rw [h]; trivial
  · rw [h]; exact fun _ _ _ => trivial

theorem sameAction_core (g : Fault → Fault) (c : CoreNative) (args : List Value) :
    SameAction g (c.action args) (c.action args) := by
  rcases c.action_cases args with ⟨v, h⟩ | ⟨cause, h⟩ | ⟨text, v, h⟩ | ⟨next, h⟩
  · rw [h]; exact .done rfl
  · rw [h]; exact .fail rfl
  · rw [h]; exact .write text (.done rfl)
  · rw [h]; exact .depths fun _ _ _ => .done rfl

theorem runNative (hκ : κ.Lawful) (ha : κ.Applies a a') {args args' : List Value}
    (h : SameValues κ.mask args args') (native : Native) :
    κ.Follows (SameValue κ.mask) (Run.runNative a args native)
      (Run.runNative a' args' native) := by
  cases native with
  | core c =>
    have hact : c.action args = c.action args' := by
      rw [← CoreNative.action_mask hκ.cause, h, CoreNative.action_mask hκ.cause]
    rw [Run.runNative, Run.runNative, hact]
    exact perform hκ ha (.inl (ignoresLimits_core c args')) (sameAction_core κ.mask c args')
  | host name =>
    refine setting_bind ?_
    rw [← hκ.host]
    exact perform hκ ha (hκ.limits.imp_left fun h => h name args) (hκ.blind.native name h)
  | resume name rest body scope =>
    have hhead : SameValue κ.mask (args.headD .unit) (args'.headD .unit) := h.headD
    refine newScope_bind scope fun inner => bind (define inner name hhead) fun _ _ _ => ?_
    exact settled ha (form hκ ha {} inner {} _)

theorem invoke (hκ : κ.Lawful) (ha : κ.Applies a a') {b b' : Builtin} {args args' : List Value}
    (hb : b.mask κ.mask = b'.mask κ.mask) (h : SameValues κ.mask args args') :
    κ.Follows (SameValue κ.mask) (Run.invoke a b args) (Run.invoke a' b' args') := by
  have hnative : b.native = b'.native := by
    rw [← Builtin.native_mask κ.mask, hb, Builtin.native_mask]
  refine bind (reach hκ (.native hb h)) fun _ _ _ => ?_
  rw [hnative]
  exact runNative hκ ha h b'.native

theorem callBuiltin (hκ : κ.Lawful) (ha : κ.Applies a a') {b b' : Builtin}
    {args args' : List Value} (hb : b.mask κ.mask = b'.mask κ.mask)
    (h : SameValues κ.mask args args') :
    κ.Follows (SameValue κ.mask) (Run.callBuiltin a b args) (Run.callBuiltin a' b' args') := by
  have harity : b.arity = b'.arity := by
    rw [← Builtin.arity_mask κ.mask, hb, Builtin.arity_mask]
  have hname : b.name = b'.name := by rw [← Builtin.name_mask κ.mask, hb, Builtin.name_mask]
  have hdefaults : SameValues κ.mask b.defaults b'.defaults := by
    rw [SameValues, ← Builtin.defaults_mask, hb, Builtin.defaults_mask]
  have hcallee : SameValue κ.mask (.builtin b) (.builtin b') := by
    rw [SameValue, Value.mask, Value.mask, hb]
  have hplain := h.plainArgs
  unfold Run.callBuiltin
  rw [← harity]
  cases b.arity with
  | none => exact invoke hκ ha hb h
  | some arity =>
    dsimp only
    rw [hplain.length_eq, hplain.isEmpty_eq, hdefaults.length_eq, hname]
    split
    · exact fail _
    · split
      · exact partialApp _ hcallee hplain
      · split
        · exact fail _
        · exact invoke hκ ha hb (hplain.append (hdefaults.drop _))

/-- What cannot be called is left to the fallback of the host. -/
theorem applyNative_inert (a : Apply) {v : Value} (hv : v.isCallable = false) (args : List Value)
    (site : CallSite) :
    Run.applyNative a v args site = (do
      let answer := (← Run.fallback).bind fun handler => handler v args
      Run.mapFault (·.orLocation site.span)
        (Run.ofExcept (answer.getD (.error { cause := .notCallable v.typeName })))) := by
  cases v <;> first | rfl | cases hv

theorem applyNative (hκ : κ.Lawful) (ha : κ.Applies a a') {callee callee' : Value}
    {args args' : List Value} (site : CallSite) (hcallee : SameValue κ.mask callee callee')
    (h : SameValues κ.mask args args') :
    κ.Follows (SameValue κ.mask) (Run.applyNative a callee args site)
      (Run.applyNative a' callee' args' site) := by
  have located {x x' : Run Value} (hx : κ.Follows (SameValue κ.mask) x x') :
      κ.Follows (SameValue κ.mask) (Run.mapFault (·.orLocation site.span) x)
        (Run.mapFault (·.orLocation site.span) x') :=
    mapFault (fun _ _ => hκ.orLocation site.span) hx
  cases Value.alike_of_mask_eq hcallee with
  | function | partialApp | method | bound => exact located (ha site hcallee h)
  | builtin hb => exact located (callBuiltin hκ ha hb h)
  | constructor id type name arity =>
    refine located ?_
    rw [h.length_eq, h.isEmpty_eq]
    split
    · refine pure ?_
      rw [SameValue, Value.mask, Value.mask, maskAll_eq, maskAll_eq, h]
    · split
      · exact fail _
      · split
        · exact partialApp _ hcallee h
        · exact fail _
  | operator op =>
    refine located ?_
    cases args with
    | nil => rw [h.nil_inv]; exact fail _
    | cons l rest =>
      obtain ⟨l', rest', rfl, hl, hrest⟩ := h.cons_inv
      cases rest with
      | nil => obtain rfl := hrest.nil_inv; exact partialApp 1 rfl h
      | cons r rest =>
        obtain ⟨r', rest', rfl, hr, hrest⟩ := hrest.cons_inv
        cases rest with
        | nil =>
          obtain rfl := hrest.nil_inv
          exact ofCause (by rw [← BinOp.eval_mask, hl, hr, BinOp.eval_mask])
        | cons v rest =>
          obtain ⟨v', rest', rfl, -, -⟩ := hrest.cons_inv
          dsimp only
          rw [h.length_eq]
          exact fail _
  | composed id houter hinner =>
    exact bind (ha site hinner h) fun _ _ hv => located (ha site houter (.cons hv .nil))
  | inert hv hv' =>
    rw [applyNative_inert a hv, applyNative_inert a' hv']
    refine fallback_bind hκ fun m => located (ofExcept ?_)
    have htype : callee.typeName = callee'.typeName := by
      rw [← Value.typeName_mask κ.mask, hcallee, Value.typeName_mask]
    rw [htype]
    cases hfallback : κ.left.host.fallbackOn m with
    | none => exact .error rfl
    | some handler =>
      have hanswer := hκ.blind.fallback handler hfallback hcallee h
      rw [Option.bind_some, Option.bind_some]
      generalize handler callee args = answer, handler callee' args' = answer' at hanswer ⊢
      cases hanswer with
      | none => exact .error rfl
      | some hsame => exact hsame

/-- A loop with more rounds follows one with fewer if its step follows. -/
theorem iterate {σ α : Type} {S : σ → σ → Prop} {R : α → α → Prop} {step step' : σ → Run (σ ⊕ α)}
    (hstep : ∀ {x x'}, S x x' → κ.Follows (Sum.LiftRel S R) (step x) (step' x')) {n k : Nat}
    (hnk : n ≤ k) {x x' : σ} (hx : S x x') :
    κ.Follows R (Run.iterate step n x) (Run.iterate step' k x') := by
  induction n generalizing k x x' with
  | zero => exact outOfFuel _
  | succ n ih =>
    cases k with
    | zero => omega
    | succ k =>
      rw [Run.iterate_succ, Run.iterate_succ]
      refine bind (hstep hx) fun r r' hr => ?_
      cases hr with
      | inl hy => exact ih (Nat.le_of_succ_le_succ hnk) hy
      | inr hv => exact pure hv

theorem reduceStep (hκ : κ.Lawful) (site : CallSite) {p p' : Pending}
    (h : SamePending κ.mask p p') :
    κ.Follows (Sum.LiftRel (SamePending κ.mask) (SameReduced κ.mask)) (Run.reduceStep site p)
      (Run.reduceStep site p') := by
  obtain ⟨callee, args, witness⟩ := p
  obtain ⟨callee', args', witness'⟩ := p'
  obtain ⟨hcallee, hargs, rfl⟩ := h
  cases Value.alike_of_mask_eq hcallee with
  | function | builtin | constructor | operator | composed =>
    exact pure (.inr (.call ⟨hcallee, hargs, rfl⟩))
  | partialApp id n hinner hfirst =>
    exact pure (.inl ⟨hinner, SameValues.append hfirst hargs, rfl⟩)
  | bound id hinner hreceiver =>
    exact pure (.inl ⟨hinner, SameValues.cons hreceiver hargs, rfl⟩)
  | method id m =>
    have hlen := hargs.plainArgs.length_eq
    dsimp only at hlen
    unfold Run.reduceStep
    dsimp only
    rw [hlen]
    split
    · exact bind (partialApp _ rfl hargs) fun _ _ hv => pure (.inr (.short hv))
    · refine bind (hκ.resolve m site hargs) fun r r' hr => ?_
      obtain ⟨hfound, hrest, hwitness⟩ := hr
      have hmethod : r.callee.isMethod id = r'.callee.isMethod id := by
        rw [← Value.isMethod_mask κ.mask, hfound, Value.isMethod_mask]
      rw [hmethod]
      split
      · exact fail _
      · refine pure (.inl ⟨hfound, hrest, ?_⟩)
        rw [Resolution.frame, hwitness, Resolution.frame]
  | inert hv hv' =>
    have hdirect {v : Value} (hv : v.isCallable = false) (args : List Value) :
        Run.reduceStep site { callee := v, args, witness } =
          Pure.pure (.inr (.call { callee := v, args, witness })) := by
      cases v <;> first | rfl | cases hv
    rw [hdirect hv, hdirect hv']
    exact pure (.inr (.call ⟨hcallee, hargs, rfl⟩))

theorem reduce (hκ : κ.Lawful) {n k : Nat} (hnk : n ≤ k) {callee callee' : Value}
    {args args' : List Value} (site : CallSite) (hcallee : SameValue κ.mask callee callee')
    (hargs : SameValues κ.mask args args') :
    κ.Follows (SameReduced κ.mask) (Run.reduce n callee args site)
      (Run.reduce k callee' args' site) :=
  iterate (reduceStep hκ site) hnk ⟨hcallee, hargs, rfl⟩

end Coupling.Follows

end TraitLang
