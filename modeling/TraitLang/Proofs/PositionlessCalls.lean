import TraitLang.Proofs.PositionlessRuns

/-!
Calls without positions. Main statement: applying a callable forgets into applying it without
positions, whatever the fuel.
-/
namespace TraitLang

def Binding.forget : Binding → Binding
  | .ready scope => .ready scope
  | .short v => .short v.forget

def Pending.forget (p : Pending) : Pending :=
  { p with callee := p.callee.forget, args := p.args.map Value.forget }

def Reduced.forget : Reduced → Reduced
  | .call p => .call p.forget
  | .short v => .short v.forget

def LoopState.forget (st : LoopState) : LoopState :=
  { st with toPending := st.toPending.forget, site := st.site.forget }

theorem Machine.returnWitness_forget (m : Machine) (c : Closure) (scope : ScopeId) :
    m.forget.returnWitness c.forget scope = m.returnWitness c scope := by
  unfold returnWitness
  simp only [Closure.forget, Func.retTy_forget, Func.constraints_forget, resolveType_forget]

theorem Fault.forget_atTailSite (site : CallSite) (reentered : Bool) (fault : Fault) :
    (fault.atTailSite site reentered).forget = fault.forget.atTailSite site.forget reentered := by
  unfold atTailSite
  split
  · rw [forget_orLocation, CallSite.forget, forget_orLocation_unknown]
  · rfl

theorem Resolution.forget_forget (r : Resolution) : r.forget.forget = r.forget := by
  simp only [forget, Value.forget_forget, map_forget_forget]

theorem forgetResult_forgetResult {α : Type} {f : α → α} (hf : ∀ a, f (f a) = f a)
    (r : Except Fault α) : forgetResult f (forgetResult f r) = forgetResult f r := by
  cases r with
  | ok a => rw [forgetResult, forgetResult, hf]
  | error e => rw [forgetResult, forgetResult, Fault.forget_forget]

namespace CoreNative

variable (c : CoreNative) (args : List Value)

/-- What the builtins yield has no positions. -/
theorem forget_action : (c.action args).forget = c.action args := by
  have hshown : (shown args).forget = shown args := by
    unfold shown
    split <;> simp [Action.forget]
  have hlength : (lengthOf args).forget = lengthOf args := by
    unfold lengthOf
    split <;> simp [Action.forget, Action.error]
  unfold action
  split <;> simp [Action.forget, Action.error, hshown, hlength]

theorem agrees_action : (c.action args).Agrees (c.action args) := by
  rcases c.action_cases args with ⟨v, h⟩ | ⟨cause, h⟩ | ⟨text, v, h⟩ | ⟨next, h⟩
  · rw [h]; exact .done rfl
  · rw [h]; exact .fail rfl
  · rw [h]; exact .write text (.done rfl)
  · rw [h]; exact .depths fun _ _ _ => .done rfl

end CoreNative

namespace Run.Forgets

variable {α β σ τ : Type} {s : Setting} {f : α → β} {a a' : Apply}

/-! ### Resolving -/

theorem materialize (m : ClassMethod) (callee : Value) (place : Option (TypeKey × Bool)) :
    Forgets s id (Run.materialize m callee place) (Run.materialize m callee.forget place) := by
  cases place with
  | none => exact pure rfl
  | some place =>
    exact modify fun mach => by simp only [Machine.forget, Registry.relabel_addMethod]

theorem resolveDefault (m : ClassMethod) (fb : Fallback) :
    Forgets s Resolution.forget (Run.resolveDefault m fb) (Run.resolveDefault m fb.forget) := by
  refine machine_bind fun mach => ?_
  have hregistry : mach.forget.registry = mach.registry.forget := rfl
  dsimp only
  rw [hregistry, Registry.defaultKey_forget, Fallback.witness_forget, Registry.userDefault?_relabel,
    Registry.builtinDefault?_relabel]
  cases mach.registry.userDefault? m.traitName m.method with
  | some func =>
    refine fresh_bind fun id => ?_
    exact bind (materialize m (.function id _) _) fun _ => pure rfl
  | none =>
    cases mach.registry.builtinDefault? m.traitName m.method with
    | some callee => exact pure rfl
    | none => exact fail _

theorem resolve (hs : s.IgnoresPositions) (m : ClassMethod) (args : List Value) (site : CallSite) :
    Forgets s Resolution.forget (Run.resolve m args site)
      (Run.resolve m (args.map Value.forget) site.forget) := by
  refine bind (reach hs _ _) fun _ => machine_bind fun mach => ?_
  rw [Machine.select_forget]
  cases mach.select m args site with
  | inl found => exact pure rfl
  | inr fb => exact resolveDefault m fb

/-! ### Binding arguments -/

theorem partialApp (callee : Value) (args : List Value) (remaining : Nat) :
    Forgets s Value.forget (Run.partialApp callee args remaining)
      (Run.partialApp callee.forget (args.map Value.forget) remaining) :=
  fresh_bind fun id => pure (by simp)

theorem bindParams (hs : s.IgnoresPositions) (ha : Apply.Forgets s a a') (c : Closure)
    (scope : ScopeId) (supplied : Nat) (ps : List Param) (vs : List Value) :
    Forgets s id (Run.bindParams a c scope supplied ps vs)
      (Run.bindParams a' c.forget scope supplied (ps.map Param.forget) (vs.map Value.forget)) := by
  induction ps generalizing vs with
  | nil =>
    rw [List.map_nil, Run.bindParams, Run.bindParams]
    exact pure rfl
  | cons p ps ih =>
    cases vs with
    | nil =>
      rw [List.map_cons, List.map_nil, Run.bindParams, Run.bindParams]
      obtain ⟨name, ty, default, variadic⟩ := p
      cases default with
      | some e =>
        refine bind (evalValue hs ha {} c.scope e) fun v => ?_
        exact bind (define scope name v) fun _ => ih []
      | none =>
        show Forgets s id (Run.fail _) (Run.fail _)
        rw [Closure.forget, Func.name_forget, Func.required_forget]
        exact fail _
    | cons v vs =>
      rw [List.map_cons, List.map_cons, Run.bindParams, Run.bindParams]
      exact bind (define scope p.name v) fun _ => ih vs

theorem bindDictionaries (func : Func) (scope : ScopeId) (ds : List Dictionary) :
    Forgets s id (Run.bindDictionaries func scope ds)
      (Run.bindDictionaries func.forget scope (ds.map Dictionary.forget)) := by
  cases ds with
  | nil => exact pure rfl
  | cons first rest =>
    rw [List.map_cons, Run.bindDictionaries, Run.bindDictionaries, ← List.map_cons,
      Func.witnessParams_forget, witnessBindings?_relabel, Func.name_forget, List.length_map]
    exact bind (require _ _) fun bindings => defineAll scope bindings

theorem bindTypes (scope : ScopeId) (site : CallSite) :
    Forgets s id (Run.bindTypes scope site) (Run.bindTypes scope site.forget) := by
  refine machine_bind fun m => ?_
  have htypes (types : List (String × Ty)) :
      Assoc.mapValues Value.forget (Assoc.mapValues Value.typeRep types) =
        Assoc.mapValues Value.typeRep types := by
    simp [Assoc.mapValues, Function.comp_def]
  have h := defineAll (s := s) scope (Assoc.mapValues Value.typeRep
    ((site.node.bind fun node => m.hints.instantiations.lookup node).getD []))
  rw [htypes] at h
  exact h

theorem bindSurplus (func : Func) (scope : ScopeId) (plain : List Value) :
    Forgets s id (Run.bindSurplus func scope plain)
      (Run.bindSurplus func.forget scope (plain.map Value.forget)) := by
  unfold Run.bindSurplus
  rw [Func.params_forget, List.getLast?_map, Func.fixedParams_forget, List.length_map,
    ← List.map_drop]
  cases func.params.getLast? with
  | none => exact pure rfl
  | some p =>
    have hvariadic : p.forget.variadic = p.variadic := rfl
    simp only [Option.map_some, hvariadic]
    split
    · have hlist : Value.list ((plain.drop func.fixedParams.length).map Value.forget) =
          (Value.list (plain.drop func.fixedParams.length)).forget := by simp
      rw [hlist]
      exact define scope p.name _
    · exact pure rfl

theorem bindScope (hs : s.IgnoresPositions) (ha : Apply.Forgets s a a') (c : Closure)
    (args : List Value) (site : CallSite) :
    Forgets s id (Run.bindScope a c args site)
      (Run.bindScope a' c.forget (args.map Value.forget) site.forget) := by
  unfold Run.bindScope
  dsimp only
  rw [plainArgs_forget, leadingDictionaries_relabel, List.length_map]
  refine newScope_bind c.scope fun scope => ?_
  refine bind (bindDictionaries c.func scope _) fun _ => bind (bindTypes scope site) fun _ => ?_
  have hfixed : c.forget.func.fixedParams = c.func.fixedParams.map Param.forget :=
    c.func.fixedParams_forget
  rw [hfixed]
  refine bind (bindParams hs ha c scope _ _ _) fun _ => ?_
  exact bind (bindSurplus c.func scope _) fun _ => pure rfl

theorem bindArguments (hs : s.IgnoresPositions) (ha : Apply.Forgets s a a') (id : Ident)
    (c : Closure) (args : List Value) (site : CallSite) :
    Forgets s Binding.forget (Run.bindArguments a id c args site)
      (Run.bindArguments a' id c.forget (args.map Value.forget) site.forget) := by
  have hfunc : c.forget.func = c.func.forget := rfl
  unfold Run.bindArguments
  dsimp only
  rw [hfunc, plainArgs_forget, List.length_map, Func.required_forget, Func.name_forget,
    Func.isVariadic_forget, Func.params_forget, List.length_map, List.isEmpty_map]
  split
  · split
    · exact fail _
    · exact bind (partialApp (.function id c) args _) fun v => pure rfl
  · split
    · exact fail _
    · exact bind (bindScope hs ha c args site) fun scope => pure rfl

/-! ### Native functions -/

theorem callGlobal (ha : Apply.Forgets s a a') (name : String) (args : List Value) :
    Forgets s Value.forget (Run.callGlobal a name args)
      (Run.callGlobal a' name (args.map Value.forget)) :=
  bind (lookup Store.global name) fun callee => ha callee args _

theorem forM {g : σ → τ} {k : σ → Run Unit} {k' : τ → Run Unit}
    (hk : ∀ x, Forgets s id (k x) (k' (g x))) (xs : List σ) :
    Forgets s id (xs.forM k) ((xs.map g).forM k') := by
  induction xs with
  | nil => exact pure rfl
  | cons x xs ih => exact bind (hk x) fun _ => ih

theorem forM_same {k k' : σ → Run Unit} (hk : ∀ x, Forgets s id (k x) (k' x)) (xs : List σ) :
    Forgets s id (xs.forM k) (xs.forM k') := by
  have h := forM (g := id) hk xs
  rw [List.map_id] at h
  exact h

theorem declare (item : Item) : Forgets s id (Run.declare item) (Run.declare item.forget) := by
  cases item with
  | func f =>
    refine fresh_bind fun id => ?_
    rw [Func.name_forget]
    exact define Store.global f.name (.function id { func := f, scope := Store.global })
  | data d =>
    refine forM_same (fun c => ?_) d.constructors
    split
    · exact define Store.global c.name (.data d.name c.name [])
    · exact fresh_bind fun id => define Store.global c.name (.constructor id d.name c.name c.arity)
  | traitDecl t =>
    refine bind (modify fun _ => rfl) fun _ => forM_same (fun method => ?_) t.methods
    exact fresh_bind fun id => define Store.global method.name (.method id _)
  | inst d =>
    refine bind (modify fun m => ?_) fun _ => forM (fun f => ?_) d.methods
    · simp only [Machine.forget, Registry.relabel_addInstance]
    · refine fresh_bind fun id => modify fun m => ?_
      simp only [Machine.forget, Registry.relabel_addMethod, Func.name_forget]
      rfl
  | const c => exact pure rfl

theorem defineConst (hs : s.IgnoresPositions) (ha : Apply.Forgets s a a') (item : Item) :
    Forgets s id (Run.defineConst a item) (Run.defineConst a' item.forget) := by
  cases item with
  | const c =>
    exact bind (evalValue hs ha { annotation := c.ty } Store.global c.value)
      fun v => define Store.global c.name v
  | func | data | traitDecl | inst => exact pure rfl

theorem loading (hs : s.IgnoresPositions) (ha : Apply.Forgets s a a') (p : AnalyzedProgram) :
    Forgets s id (Run.loading a p) (Run.loading a' p.forget) := by
  have habsorb (r : Registry) : (r.absorb p.hints).forget = r.forget.absorb p.hints.forget :=
    Registry.relabel_absorb Func.name_forget r p.hints
  refine bind (modify fun m => by simp only [Machine.forget, habsorb]; rfl) fun _ => ?_
  exact bind (forM declare p.program.items) fun _ => forM (defineConst hs ha) p.program.items

theorem register (r : Registration) :
    Forgets s id (Run.register r) (Run.register r.forget) := by
  cases r with
  | traitDefault traitName method v =>
    exact modify fun m => by simp only [Machine.forget, Registry.relabel_addBuiltinDefault]
  | instanceMethod traitName types method v =>
    exact modify fun m => by simp only [Machine.forget, Registry.relabel_addMethod]
  | bridge name | fallback name => exact modify fun _ => rfl

/-- The answers that a native function gets without positions are those it gets with them, and so
it goes on alike. -/
theorem perform (hs : s.IgnoresPositions) (ha : Apply.Forgets s a a') {act act' : Action}
    (h : act.Agrees act') :
    Forgets s Value.forget (Run.perform a act) (Run.perform a' act'.forget) := by
  have hvalue (r : Except Fault Value) := (forgetResult_forgetResult Value.forget_forget r).symm
  have hresolution (r : Except Fault Resolution) :=
    (forgetResult_forgetResult Resolution.forget_forget r).symm
  induction h with
  | done hv => exact pure hv
  | fail hf => exact throw hf
  | write text _ ih => exact bind (modify fun _ => rfl) fun _ => ih
  | fresh _ ih => exact fresh_bind ih
  | limits _ ih =>
    exact bind (reach hs _ _) fun _ => setting_bind (ih s.limits s.limits.forget rfl)
  | look _ ih =>
    exact machine_bind fun m => ih _ _ _ _ m.registry.forget_forget.symm m.store.forget_forget.symm
  | newScope parent _ ih => exact newScope_bind parent ih
  | define scope name hv _ ih =>
    rw [Action.forget, ← hv]
    exact bind (define scope name _) fun _ => ih
  | assign scope name hv _ ih =>
    rw [Action.forget, ← hv]
    refine bind (attempt (assign scope name _)) fun r => ?_
    cases r <;> exact ih _
  | depths _ ih =>
    refine bind (reach hs _ _) fun _ => machine_bind fun m => ?_
    have hcalls : m.forget.calls.depth = m.calls.depth := Stack.depth_map _ _
    rw [hcalls]
    exact ih _ _ _
  | apply hcallee hargs hsite _ ih =>
    rw [Action.forget, ← hcallee, ← hargs, ← hsite]
    exact bind (attempt (ha _ _ _)) fun r => ih r _ (hvalue r)
  | call name hargs _ ih =>
    rw [Action.forget, ← hargs]
    exact bind (attempt (callGlobal ha name _)) fun r => ih r _ (hvalue r)
  | eval he _ ih =>
    rw [Action.forget, ← he]
    exact bind (attempt (evalValue hs ha {} Store.global _)) fun r => ih r _ (hvalue r)
  | resolve method hargs hsite _ ih =>
    rw [Action.forget, ← hargs, ← hsite]
    exact bind (attempt (resolve hs method _ _)) fun r => ih r _ (hresolution r)
  | load hp _ ih =>
    rw [Action.forget, ← hp]
    refine bind (attempt (loading hs ha _)) fun r => ih r _ ?_
    exact (forgetResult_forgetResult (fun _ => rfl) r).symm
  | register hr _ ih =>
    rw [Action.forget, ← hr]
    exact bind (register _) fun _ => ih

theorem runNative (hs : s.IgnoresPositions) (ha : Apply.Forgets s a a') (args : List Value)
    (native : Native) :
    Forgets s Value.forget (Run.runNative a args native)
      (Run.runNative a' (args.map Value.forget) native.forget) := by
  cases native with
  | core c =>
    rw [Native.forget, Run.runNative, Run.runNative, CoreNative.action_relabel positions_lawful]
    have h := perform hs ha (c.agrees_action args)
    rw [c.forget_action] at h
    exact h
  | host name =>
    exact setting_bind (perform hs ha (hs.host.native name (map_forget_forget args).symm))
  | resume name rest body scope =>
    refine newScope_bind scope fun inner => ?_
    have hhead : (args.map Value.forget).headD .unit = (args.headD .unit).forget := by
      cases args <;> simp
    rw [hhead]
    refine bind (define inner name _) fun _ => ?_
    have h := form hs ha {} inner {} (.doChain rest body)
    rw [Expr.forget] at h
    exact settled ha h

theorem invoke (hs : s.IgnoresPositions) (ha : Apply.Forgets s a a') (b : Builtin)
    (args : List Value) :
    Forgets s Value.forget (Run.invoke a b args)
      (Run.invoke a' (b.relabel positions) (args.map Value.forget)) := by
  unfold Run.invoke
  rw [Builtin.native_relabel]
  exact bind (reach hs _ _) fun _ => runNative hs ha args b.native

theorem callBuiltin (hs : s.IgnoresPositions) (ha : Apply.Forgets s a a') (b : Builtin)
    (args : List Value) :
    Forgets s Value.forget (Run.callBuiltin a b args)
      (Run.callBuiltin a' (b.relabel positions) (args.map Value.forget)) := by
  unfold Run.callBuiltin
  rw [Builtin.arity_relabel]
  cases b.arity with
  | none => exact invoke hs ha b args
  | some arity =>
    dsimp only
    rw [plainArgs_forget, Builtin.defaults_relabel, Builtin.name_relabel, List.length_map,
      List.length_map, List.isEmpty_map, ← List.map_drop, ← List.map_append]
    split
    · exact fail _
    · split
      · have hbuiltin : Value.builtin (b.relabel positions) = (Value.builtin b).forget := by
          rw [Value.forget, Value.relabel]
        rw [hbuiltin]
        exact partialApp (.builtin b) (plainArgs args) _
      · split
        · exact fail _
        · exact invoke hs ha b _

theorem fallback (hs : s.IgnoresPositions) (m : Machine) (callee : Value) (args : List Value) :
    Forgets s Value.forget
      (Run.ofExcept (((s.host.fallbackOn m).bind fun handler => handler callee args).getD
        (.error { cause := .notCallable callee.typeName })))
      (Run.ofExcept
        ((((s.host.fallbackOn m).map FallbackHandler.forget).bind fun handler =>
          handler callee.forget (args.map Value.forget)).getD
          (.error { cause := .notCallable callee.forget.typeName }))) := by
  rw [Value.typeName_relabel]
  cases hhandler : s.host.fallbackOn m with
  | none => exact throw rfl
  | some handler =>
    have hsame := hs.host.fallback handler hhandler callee.forget_forget.symm
      (map_forget_forget args).symm
    simp only [Option.map_some, Option.bind_some, FallbackHandler.forget, ← hsame]
    cases handler callee args with
    | none => exact throw rfl
    | some answer => exact ofExcept answer

theorem applyNative (hs : s.IgnoresPositions) (ha : Apply.Forgets s a a') (callee : Value)
    (args : List Value) (site : CallSite) :
    Forgets s Value.forget (Run.applyNative a callee args site)
      (Run.applyNative a' callee.forget (args.map Value.forget) site.forget) := by
  cases callee with
  | builtin b =>
    simp only [Run.applyNative, Value.forget, Value.relabel]
    exact located site.span (callBuiltin hs ha b args)
  | constructor id type name arity =>
    simp only [Run.applyNative, Value.forget, Value.relabel, List.length_map, List.isEmpty_map]
    refine located site.span ?_
    split
    · exact pure (by simp)
    · split
      · exact fail _
      · split
        · exact partialApp (.constructor id type name arity) args _
        · exact fail _
  | operator op =>
    simp only [Run.applyNative, Value.forget, Value.relabel, List.length_map]
    refine located site.span ?_
    rcases args with _ | ⟨l, _ | ⟨r, _ | ⟨_, _⟩⟩⟩
    · exact fail _
    · exact partialApp (.operator op) [l] 1
    · simp only [List.map_cons, List.map_nil, BinOp.eval_relabel]
      exact ofCause _
    · exact fail _
  | composed id outer inner =>
    simp only [Run.applyNative, Value.forget, Value.relabel]
    refine bind (ha inner args site) fun v => ?_
    exact located site.span (ha outer [v] site)
  | function | partialApp | bound | method => exact located site.span (ha _ args site)
  | _ => exact fallback_bind fun m => located site.span (fallback hs m _ args)

/-! ### The loop -/

/-- A loop forgets step by step. -/
theorem iterate {g : σ → τ} {step : σ → Run (σ ⊕ α)} {step' : τ → Run (τ ⊕ β)}
    (hstep : ∀ x, Forgets s (Sum.map g f) (step x) (step' (g x))) (fuel : Nat) (x : σ) :
    Forgets s f (Run.iterate step fuel x) (Run.iterate step' fuel (g x)) := by
  induction fuel generalizing x with
  | zero => exact outOfFuel
  | succ fuel ih =>
    rw [Run.iterate_succ, Run.iterate_succ]
    refine bind (hstep x) fun next => ?_
    cases next with
    | inl y => exact ih y
    | inr b => exact pure rfl

theorem reduceStep (hs : s.IgnoresPositions) (site : CallSite) (p : Pending) :
    Forgets s (Sum.map Pending.forget Reduced.forget) (Run.reduceStep site p)
      (Run.reduceStep site.forget p.forget) := by
  obtain ⟨callee, args, witness⟩ := p
  cases callee with
  | partialApp id callee first remaining =>
    exact pure (by simp [Pending.forget])
  | bound id callee receiver => exact pure (by simp [Pending.forget])
  | method id m =>
    simp only [Run.reduceStep, Pending.forget, Value.forget, Value.relabel, plainArgs_relabel,
      List.length_map]
    split
    · exact bind (partialApp (.method id m) args _) fun v => pure rfl
    · refine bind (resolve hs m args site) fun r => ?_
      have hmethod : r.forget.callee.isMethod id = r.callee.isMethod id :=
        Value.isMethod_relabel positions id r.callee
      rw [hmethod]
      split
      · exact fail _
      · exact pure rfl
  | _ => exact pure rfl

theorem reduce (hs : s.IgnoresPositions) (fuel : Nat) (callee : Value) (args : List Value)
    (site : CallSite) :
    Forgets s Reduced.forget (Run.reduce fuel callee args site)
      (Run.reduce fuel callee.forget (args.map Value.forget) site.forget) :=
  iterate (reduceStep hs site) fuel { callee, args }

theorem pushWitness (frame : Option WitnessFrame) :
    Forgets s id (Run.pushWitness frame) (Run.pushWitness frame) := by
  cases frame with
  | none => exact pure rfl
  | some frame => exact modify fun _ => rfl

theorem pushEvidence (c : Closure) (scope : ScopeId) :
    Forgets s id (Run.pushEvidence c scope) (Run.pushEvidence c.forget scope) := by
  refine bind (pushWitness c.witnesses) fun _ => machine_bind fun m => ?_
  rw [Machine.returnWitness_forget]
  exact pushWitness _

theorem openBody (hs : s.IgnoresPositions) (ha : Apply.Forgets s a a') (id : Ident) (c : Closure)
    (p : Pending) (site : CallSite) :
    Forgets s Binding.forget (Run.openBody a id c p site)
      (Run.openBody a' id c.forget p.forget site.forget) := by
  refine bind (pushWitness p.witness) fun _ => bind (bindArguments hs ha id c p.args site) ?_
  intro binding
  cases binding with
  | short v => exact pure rfl
  | ready scope => exact bind (pushEvidence c scope) fun _ => pure rfl

theorem handOver (hs : s.IgnoresPositions) (fuel base : Nat) (step : Step) :
    Forgets s (Sum.map LoopState.forget Value.forget) (Run.handOver fuel base step)
      (Run.handOver fuel base step.forget) := by
  cases step with
  | done v => exact pure rfl
  | tail callee args site =>
    refine bind (located site.span (reduce hs fuel callee args site)) fun reduced => ?_
    cases reduced with
    | short v => exact pure rfl
    | call next =>
      refine bind (modify fun m => ?_) fun _ => pure rfl
      have hframe : m.forget.frame site.forget = (m.frame site).forget := rfl
      rw [hframe]
      simp only [Machine.forget, Stack.map_replaceTop]

theorem runFunction (hs : s.IgnoresPositions) (ha : Apply.Forgets s a a') (fuel base : Nat)
    (id : Ident) (c : Closure) (st : LoopState) :
    Forgets s (Sum.map LoopState.forget Value.forget) (Run.runFunction a fuel base id c st)
      (Run.runFunction a' fuel base id c.forget st.forget) := by
  have hsite := Fault.forget_atTailSite st.site st.reentered
  refine bind (mapFault (openBody hs ha id c st.toPending st.site) hsite) fun binding => ?_
  cases binding with
  | short v => exact pure rfl
  | ready scope =>
    refine bind (reach hs _ _) fun _ => ?_
    have hbody : c.forget.func.body = forgetNode c.func.body := c.func.body_forget
    rw [hbody]
    exact bind (mapFault (node hs ha { tail := true } scope c.func.body) hsite) fun step =>
      handOver hs fuel base step

theorem runOther (hs : s.IgnoresPositions) (ha : Apply.Forgets s a a') (st : LoopState) :
    Forgets s Value.forget (Run.runOther a st) (Run.runOther a' st.forget) :=
  bind (pushWitness st.witness) fun _ =>
    mapFault (applyNative hs ha st.callee st.args st.site)
      (Fault.forget_atTailSite st.site st.reentered)

theorem loopStep (hs : s.IgnoresPositions) (ha : Apply.Forgets s a a') (fuel base : Nat)
    (st : LoopState) :
    Forgets s (Sum.map LoopState.forget Value.forget) (Run.loopStep a fuel base st)
      (Run.loopStep a' fuel base st.forget) := by
  have hother : Forgets s (Sum.map LoopState.forget Value.forget)
      (do return .inr (← Run.runOther a st)) (do return .inr (← Run.runOther a' st.forget)) :=
    bind (runOther hs ha st) fun v => pure rfl
  obtain ⟨⟨callee, args, witness⟩, site, reentered⟩ := st
  cases callee with
  | function id c => exact runFunction hs ha fuel base id c _
  | _ => exact hother

theorem trampoline (hs : s.IgnoresPositions) (ha : Apply.Forgets s a a') (fuel : Nat)
    (callee : Value) (args : List Value) (site : CallSite) :
    Forgets s Value.forget (Run.trampoline a fuel callee args site)
      (Run.trampoline a' fuel callee.forget (args.map Value.forget) site.forget) := by
  refine keepingWitnesses (machine_bind fun m => bind (reduce hs fuel callee args site) ?_)
  intro reduced
  cases reduced with
  | short v => exact pure rfl
  | call p => exact iterate (loopStep hs ha fuel _) fuel { p with site, reentered := false }

/-! ### Calls in progress -/

theorem overflow (hs : s.IgnoresPositions) (site : CallSite) :
    Forgets s Value.forget (Run.overflow site) (Run.overflow site.forget) := by
  refine bind (reach hs _ _) fun _ => setting_bind (machine_bind fun m => throw ?_)
  rw [Fault.forget_orTrace, Fault.forget_orLocation]
  rfl

theorem withCall (frame : CallFrame) {x : Run α} {x' : Run β} (hx : Forgets s f x x') :
    Forgets s f (Run.withCall frame x) (Run.withCall frame.forget x') := by
  intro m
  have hpushed : ({ m with calls := m.calls.push frame } : Machine).forget =
      { m.forget with calls := m.forget.calls.push frame.forget } := by
    simp only [Machine.forget, Stack.map_push]
  have hcut (n : Machine) : ({ n with calls := n.calls.cut m.calls.depth } : Machine).forget =
      { n.forget with calls := n.forget.calls.cut m.forget.calls.depth } := by
    simp only [Machine.forget, Stack.map_cut, Stack.depth_map]
  unfold Run.withCall
  dsimp only
  rw [← hpushed, hx]
  cases x s { m with calls := m.calls.push frame } with
  | done b n => simp only [Outcome.forget, hcut]
  | failed e n =>
    simp only [Outcome.forget, hcut, Fault.forget_orTrace]
    rfl
  | halted why => rfl

theorem asCall (hs : s.IgnoresPositions) (site : CallSite) {x x' : Run Value}
    (hx : Forgets s Value.forget x x') :
    Forgets s Value.forget (Run.asCall site x) (Run.asCall site.forget x') := by
  intro m
  have hdepth : m.forget.calls.depth = m.calls.depth := Stack.depth_map _ _
  have hlimit : s.forget.limits.maxCallDepth = s.limits.maxCallDepth := rfl
  unfold Run.asCall
  rw [hdepth, hlimit]
  split
  · exact overflow hs site m
  · exact withCall (m.frame site) hx m

end Run.Forgets

/-- Applying a callable without positions does, without positions, what applying it does. -/
theorem apply_forgets {s : Setting} (hs : s.IgnoresPositions) (fuel : Nat) :
    Apply.Forgets s (apply fuel) (apply fuel) := by
  intro callee args site
  induction fuel generalizing callee args site with
  | zero => exact Run.Forgets.outOfFuel
  | succ fuel ih =>
    exact Run.Forgets.asCall hs site (Run.Forgets.trampoline hs ih fuel callee args site)

end TraitLang
