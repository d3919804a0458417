import TraitLang.Proofs.Keeping

/-!
Calls within a policy. Binding arguments, native functions, resolving trait methods and the loop of
a trampoline keep to a policy, so applying a callable does.
-/
namespace TraitLang

def Binding.Obeys (P : Policy) : Binding → Prop
  | ready scope => P.live scope
  | short v => v.Obeys P

structure Pending.Obeys (P : Policy) (p : Pending) : Prop where
  callee : p.callee.Obeys P
  args : ∀ v ∈ p.args, v.Obeys P
  witness : ∀ f, p.witness = some f → f.Obeys P

def Reduced.Obeys (P : Policy) : Reduced → Prop
  | call p => p.Obeys P
  | short v => v.Obeys P

/-- A call that a loop is about to make, or its result. -/
def LoopObeys (P : Policy) : LoopState ⊕ Value → Prop
  | .inl st => st.toPending.Obeys P
  | .inr v => v.Obeys P

theorem Run.resolveDefault_setting (m : ClassMethod) (fb : Fallback) (s t : Setting)
    (mach : Machine) : resolveDefault m fb t mach = resolveDefault m fb s mach := by
  rw [resolveDefault, machine_bind, machine_bind]
  cases mach.registry.userDefault? m.traitName m.method with
  | some f => cases mach.registry.defaultKey m fb <;> rfl
  | none => cases mach.registry.builtinDefault? m.traitName m.method <;> rfl

namespace Run.Keeps

variable {α β σ : Type} {P : Policy} {k : ScopeId} {A : α → Prop} {a : Apply} {args : List Value}

theorem partialApp {callee : Value} (hcallee : callee.Obeys P) (hargs : ∀ v ∈ args, v.Obeys P)
    (remaining : Nat) : (partialApp callee args remaining).Keeps P k (Value.Obeys P) :=
  bind fresh fun _ _ => pure ⟨hcallee, (allObey_iff args).2 hargs⟩

theorem iterate {step : σ → Run (σ ⊕ α)} {I : σ → Prop}
    (hstep : ∀ x, I x → (step x).Keeps P k (Sum.elim I A)) (fuel : Nat) {x : σ} (hx : I x) :
    Keeps P k A (iterate step fuel x) := by
  induction fuel generalizing x with
  | zero => exact outOfFuel
  | succ fuel ih =>
    rw [iterate_succ]
    refine bind (hstep x hx) fun r hr => ?_
    cases r with
    | inl y => exact ih hr
    | inr b => exact pure hr

theorem evalValue (ha : Always P a) (ctx : EvalCtx) {scope : ScopeId} (hscope : P.live scope)
    {e : Spanned Expr} (he : nodeFollows P.toRules e = true) :
    (evalValue a ctx scope e).Keeps P k (Value.Obeys P) :=
  settled ha (node ha _ hscope e k he)

section Binding

variable {c : Closure}

/-- A default is evaluated where the function was defined. -/
theorem bindParams (ha : Always P a) (hc : c.Obeys P) (supplied : Nat) (ps : List Param)
    (hps : ∀ p ∈ ps, p ∈ c.func.params) (vs : List Value) (hvs : ∀ v ∈ vs, v.Obeys P) :
    (bindParams a c k supplied ps vs).Keeps P k fun _ => True := by
  induction ps generalizing vs with
  | nil => rw [Run.bindParams]; exact pure trivial
  | cons p ps ih =>
    obtain ⟨hp, hps⟩ := List.forall_mem_cons.1 hps
    cases vs with
    | cons v vs =>
      obtain ⟨hv, hvs⟩ := List.forall_mem_cons.1 hvs
      rw [Run.bindParams]
      exact bind (define p.name hv) fun _ _ => ih hps vs hvs
    | nil =>
      rw [Run.bindParams]
      split
      · rename_i e he
        refine bind (evalValue ha {} hc.live (Func.follows_default hc.code hp he)) fun v hv => ?_
        exact bind (define p.name hv) fun _ _ => ih hps [] hvs
      · exact fail _

theorem bindDictionaries (f : Func) {dicts : List Dictionary}
    (hdicts : ∀ d ∈ dicts, (Value.dictionary d).Obeys P) :
    (bindDictionaries f k dicts).Keeps P k fun _ => True := by
  cases dicts with
  | nil => exact pure trivial
  | cons d ds =>
    refine bind (require _ fun bindings hbindings => ?_) fun bindings hbindings =>
      defineAll hbindings
    exact obeys_of_witnessBindings? (hdicts d List.mem_cons_self) _ _ hdicts hbindings

theorem bindTypes (site : CallSite) : (bindTypes k site).Keeps P k fun _ => True := by
  refine bind machine fun m _ => defineAll fun b hb => ?_
  obtain ⟨e, -, rfl⟩ := List.mem_map.1 hb
  trivial

theorem bindSurplus (f : Func) {plain : List Value} (hplain : ∀ v ∈ plain, v.Obeys P) :
    (bindSurplus f k plain).Keeps P k fun _ => True := by
  unfold Run.bindSurplus
  split
  · split
    · refine define _ ((allObey_iff _).2 fun v hv => ?_)
      exact hplain v (List.mem_of_mem_drop hv)
    · exact pure trivial
  · exact pure trivial

theorem bindScope (ha : Always P a) (hc : c.Obeys P) (hargs : ∀ v ∈ args, v.Obeys P)
    (site : CallSite) : (bindScope a c args site).Keeps P k P.live := by
  have hplain := obeys_of_mem_plainArgs hargs
  refine newScope hc.live fun scope hscope => ?_
  refine bind (bindDictionaries _ (obeys_of_mem_leadingDictionaries hargs)) fun _ _ => ?_
  refine bind (bindTypes site) fun _ _ => ?_
  refine bind (bindParams ha hc _ _ (fun _ => Func.mem_params_of_fixed) _ hplain) fun _ _ => ?_
  exact bind (bindSurplus _ hplain) fun _ _ => pure hscope

theorem bindArguments (ha : Always P a) (id : Ident) (hc : c.Obeys P)
    (hargs : ∀ v ∈ args, v.Obeys P) (site : CallSite) :
    (bindArguments a id c args site).Keeps P k (Binding.Obeys P) := by
  have hcallee : (Value.function id c).Obeys P := hc
  unfold Run.bindArguments
  dsimp only
  split
  · split
    · exact fail _
    · exact bind (partialApp hcallee hargs _) fun v hv => pure hv
  · split
    · exact fail _
    · exact bind (bindScope ha hc hargs site) fun scope hscope => pure hscope

end Binding

theorem resolve (htraits : P.traits = true) (m : ClassMethod) (hargs : ∀ v ∈ args, v.Obeys P)
    (site : CallSite) : (resolve m args site).Keeps P k (Resolution.Obeys P) := by
  refine ⟨fun s mach n _ _ _ h => ?_, fun {s t mach} hst hs h => ?_⟩
  · refine Outcome.Ends.imp (resolve_cases m args site s mach) (fun r mach' ⟨route, hroute⟩ => ?_)
      (fun mach' heq => by rw [heq]; exact .refl h) fun mach' heq => by rw [heq]; exact h
    obtain ⟨hr, hmach'⟩ := hroute.obeys htraits h hargs
    exact ⟨hr, .of_store_eq hmach' hroute.store_eq⟩
  · have hreach := (reach (P := P) (k := k) (e := .dispatch m) htraits).agrees hst hs h
    cases hrun : Run.reach (.dispatch m) s mach with
    | done _ mach₁ =>
      -- once the debugger has let the method pass, nothing looks at the setting
      rw [Run.resolve, bind_of_done hrun, bind_of_done (hreach.trans hrun), machine_bind,
        machine_bind]
      cases mach₁.select m args site with
      | inl found => rfl
      | inr fb => exact resolveDefault_setting m fb s t mach₁
    | failed f mach₁ =>
      rw [Run.resolve, bind_of_failed hrun, bind_of_failed (hreach.trans hrun)]
    | halted why => rw [Run.resolve, bind_of_halted hrun, bind_of_halted (hreach.trans hrun)]

section Loading

theorem forM {f : β → Run Unit} {bs : List β} (hf : ∀ b ∈ bs, (f b).Keeps P k fun _ => True) :
    (bs.forM f).Keeps P k fun _ => True := by
  induction bs with
  | nil => exact pure trivial
  | cons b bs ih =>
    obtain ⟨hb, hbs⟩ := List.forall_mem_cons.1 hf
    exact bind hb fun _ _ => ih hbs

theorem registry {f : Registry → Registry} (hf : ∀ r, r.Obeys P → (f r).Obeys P) :
    (Run.modify fun m => { m with registry := f m.registry }).Keeps P k fun _ => True :=
  modify (fun m h => ⟨h.global, h.store, hf m.registry h.registry, h.witnesses⟩) fun _ => rfl

theorem register {r : Registration} (hr : r.Obeys P) :
    (register r).Keeps P k fun _ => True := by
  cases r with
  | traitDefault traitName method v =>
    exact registry fun _ h => h.addBuiltinDefault traitName method hr
  | instanceMethod traitName types method v => exact registry fun _ h => h.addMethod hr
  | bridge name | fallback name => exact modify (fun _ h => h.congr rfl rfl rfl) fun _ => rfl

variable (hassigns : P.assigns = true) (hglobal : P.live Store.global)

include hassigns hglobal

theorem declare {item : Item} (hitem : item.follows P.toRules = true) :
    (declare item).Keeps P k fun _ => True := by
  have global {v : Value} (name : String) (hv : v.Obeys P) :
      (Run.define Store.global name v).Keeps P k fun _ => True :=
    defineLive hassigns hglobal name hv
  -- a declared function captures nothing
  have closure {f : Func} (hf : f.follows P.toRules = true) (owner : Option String) :
      ({ func := f, scope := Store.global, owner } : Closure).Obeys P :=
    ⟨hf, hglobal, fun _ h => by cases h⟩
  cases item with
  | func f => exact bind fresh fun id _ => global (v := .function id _) f.name (closure hitem none)
  | data d =>
    refine forM fun c _ => ?_
    split
    · exact global c.name (by simp)
    · exact bind fresh fun _ _ => global c.name trivial
  | traitDecl t =>
    refine bind (registry (f := fun r => r.declare t) fun _ h =>
      ⟨h.method, h.userDefault, h.builtinDefault⟩) fun _ _ => ?_
    exact forM fun method _ => bind fresh fun _ _ => global method.name hitem
  | inst d =>
    refine bind (registry fun _ h => h.addInstance d.traitName _) fun _ _ => forM fun f hf => ?_
    have hclosure := closure (List.all_eq_true.1 hitem f hf) (some d.traitName)
    exact bind fresh fun id _ => registry fun _ h => h.addMethod (v := .function id _) hclosure
  | const c => exact pure trivial

theorem defineConst (ha : Always P a) {item : Item} (hitem : item.follows P.toRules = true) :
    (defineConst a item).Keeps P k fun _ => True := by
  cases item with
  | const c =>
    exact bind (evalValue ha _ hglobal hitem) fun v hv => defineLive hassigns hglobal c.name hv
  | _ => exact pure trivial

theorem loading (ha : Always P a) {p : AnalyzedProgram} (hp : p.follows P.toRules = true) :
    (loading a p).Keeps P k fun _ => True := by
  simp only [AnalyzedProgram.follows, Bool.and_eq_true, List.all_eq_true] at hp
  obtain ⟨hitems, hdefaults⟩ := hp
  refine bind (modify (fun m h => ?_) fun _ => rfl) fun _ _ => ?_
  · exact ⟨h.global, h.store, h.registry.absorb hdefaults, h.witnesses⟩
  refine bind (forM fun item hitem => declare hassigns hglobal (hitems item hitem)) fun _ _ => ?_
  exact forM fun item hitem => defineConst hassigns hglobal ha (hitems item hitem)

end Loading

section Natives

theorem callGlobal (ha : Always P a) (name : String) (hargs : ∀ v ∈ args, v.Obeys P) :
    (callGlobal a name args).Keeps P k (Value.Obeys P) :=
  of_machine fun _ h => bind (lookup h.global name) fun _ hcallee => ha hcallee hargs _ k

theorem perform (ha : Always P a) (act : Action) (hact : act.Obeys P) :
    (perform a act).Keeps P k (Value.Obeys P) := by
  induction act generalizing k with
  | done v => exact pure hact
  | fail f => exact throw f
  | write text next ih =>
    exact bind (modify (fun m h => h.congr rfl rfl rfl) fun _ => rfl) fun _ _ => ih hact
  | fresh next ih => exact bind fresh fun id _ => ih id (hact id)
  | depths next ih =>
    exact bind (reach trivial) fun _ _ => bind machine fun m _ => ih _ _ _ (hact _ _ _)
  | limits next ih =>
    refine bind (reach trivial) fun _ _ => setting (fun s _ => ih _ (hact _)) ?_
    exact fun s t hlimits _ => by rw [hlimits]
  | look next ih => exact bind machine fun m h => ih _ _ (hact _ _ h.registry h.store.shows)
  | newScope parent next ih =>
    exact newScope hact.1 fun scope hscope => ih scope (hact.2 scope hscope)
  | define scope name v next ih =>
    obtain ⟨hassigns, hscope, hv, hnext⟩ := hact
    exact bind (defineLive hassigns hscope name hv) fun _ _ => ih hnext
  | assign scope name v next ih =>
    obtain ⟨hassigns, hscope, hv, hnext⟩ := hact
    exact bind (attempt (assign hassigns hscope name hv)) fun r _ => ih _ (hnext _)
  | apply callee args site next ih =>
    obtain ⟨hcallee, hargs, hnext⟩ := hact
    exact bind (attempt (ha hcallee hargs site k)) fun r hr => ih r (hnext r hr)
  | call name args next ih =>
    exact bind (attempt (callGlobal ha name hact.1)) fun r hr => ih r (hact.2 r hr)
  | eval e next ih =>
    refine of_machine fun m h => ?_
    exact bind (attempt (evalValue ha {} h.global hact.1)) fun r hr => ih r (hact.2 r hr)
  | resolve method args site next ih =>
    obtain ⟨htraits, hargs, hnext⟩ := hact
    exact bind (attempt (resolve htraits method hargs site)) fun r hr => ih r (hnext r hr)
  | load p next ih =>
    obtain ⟨hassigns, hp, hnext⟩ := hact
    refine of_machine fun m h => ?_
    exact bind (attempt (loading hassigns h.global ha hp)) fun r _ => ih r (hnext r)
  | register r next ih => exact bind (register hact.1) fun _ _ => ih hact.2

theorem runNative (ha : Always P a) (hargs : ∀ v ∈ args, v.Obeys P) {native : Native}
    (hnative : native.Obeys P) : (runNative a args native).Keeps P k (Value.Obeys P) := by
  cases native with
  | core c => exact perform ha _ (CoreNative.obeys_action c args)
  | host name =>
    refine setting (fun s hs => perform ha _ (hs.native name hargs)) ?_
    exact fun s t _ hhost => by rw [hhost]
  | resume name rest body scope =>
    obtain ⟨hscope, hrest, hbody⟩ := hnative
    have hfirst : (args.headD .unit).Obeys P := by
      cases args with
      | nil => trivial
      | cons v args => exact hargs v List.mem_cons_self
    refine newScope hscope fun inner hinner => bind (define name hfirst) fun _ _ => ?_
    refine settled ha (form ha {} hinner {} _ inner ?_)
    rw [Expr.follows, Bool.and_eq_true]
    exact ⟨hrest, hbody⟩

theorem invoke (ha : Always P a) {b : Builtin} (hb : b.Obeys P) (hargs : ∀ v ∈ args, v.Obeys P) :
    (invoke a b args).Keeps P k (Value.Obeys P) :=
  bind (reach trivial) fun _ _ => runNative ha hargs ((Builtin.obeys_iff b).1 hb).1

theorem callBuiltin (ha : Always P a) {b : Builtin} (hb : b.Obeys P)
    (hargs : ∀ v ∈ args, v.Obeys P) : (callBuiltin a b args).Keeps P k (Value.Obeys P) := by
  have hcallee : (Value.builtin b).Obeys P := hb
  have hplain := obeys_of_mem_plainArgs hargs
  have hdefaults := ((Builtin.obeys_iff b).1 hb).2
  unfold Run.callBuiltin
  split
  · exact invoke ha hb hargs
  · dsimp only
    split
    · exact fail _
    · split
      · exact partialApp hcallee hplain _
      · split
        · exact fail _
        · refine invoke ha hb fun v hv => ?_
          rcases List.mem_append.1 hv with hv | hv
          · exact hplain v hv
          · exact hdefaults v (List.mem_of_mem_drop hv)

theorem fallback : Run.fallback.Keeps P k fun o => ∀ handler, o = some handler →
    ∀ {callee args v}, callee.Obeys P → (∀ v ∈ args, v.Obeys P) →
      handler callee args = some (.ok v) → v.Obeys P where
  ends _ _ _ _ _ hs h := ⟨fun _ hhandler => hs.fallback hhandler, .refl h⟩
  agrees hst _ _ := by rw [Run.fallback, hst.host]; rfl

theorem applyNative (ha : Always P a) {callee : Value} (hcallee : callee.Obeys P)
    (hargs : ∀ v ∈ args, v.Obeys P) (site : CallSite) :
    (applyNative a callee args site).Keeps P k (Value.Obeys P) := by
  unfold Run.applyNative
  dsimp only
  split
  · exact mapFault _ (callBuiltin ha hcallee hargs)
  · refine mapFault _ ?_
    split
    · exact pure ((allObey_iff args).2 hargs)
    · split
      · exact fail _
      · split
        · exact partialApp hcallee hargs _
        · exact fail _
  · refine mapFault _ ?_
    split
    · exact fail _
    · exact partialApp hcallee hargs _
    · exact ofCause fun v hv => BinOp.obeys_of_eval (hargs _ (by simp)) (hargs _ (by simp)) hv
    · exact fail _
  · refine bind (ha hcallee.2 hargs site k) fun v hv => mapFault _ (ha hcallee.1 ?_ site k)
    exact fun w hw => List.mem_singleton.1 hw ▸ hv
  iterate 4 exact mapFault _ (ha hcallee hargs site k)
  · refine bind fallback fun o ho => mapFault _ (ofExcept fun v hv => ?_)
    cases hanswer : o.bind fun handler => handler callee args with
    | none => simp [hanswer] at hv
    | some answer =>
      obtain ⟨handler, hhandler, happly⟩ := Option.bind_eq_some_iff.1 hanswer
      rw [hanswer, Option.getD_some] at hv
      exact ho handler hhandler hcallee hargs (hv ▸ happly)

end Natives

section Loop

theorem reduceStep (site : CallSite) {p : Pending} (hp : p.Obeys P) :
    (reduceStep site p).Keeps P k (Sum.elim (Pending.Obeys P) (Reduced.Obeys P)) := by
  have hcallee := hp.callee
  unfold Run.reduceStep
  split
  · rename_i callee first _ heq
    rw [heq] at hcallee
    obtain ⟨hinner, hfirst⟩ := hcallee
    refine pure ⟨hinner, fun v hv => ?_, hp.witness⟩
    rcases List.mem_append.1 hv with hv | hv
    · exact (allObey_iff first).1 hfirst v hv
    · exact hp.args v hv
  · rename_i callee receiver heq
    rw [heq] at hcallee
    exact pure ⟨hcallee.1, List.forall_mem_cons.2 ⟨hcallee.2, hp.args⟩, hp.witness⟩
  · rename_i id m heq
    dsimp only
    split
    · exact bind (partialApp hcallee hp.args _) fun v hv => pure hv
    · have htraits : P.traits = true := by simpa [heq] using hcallee
      refine bind (resolve htraits m hp.args site) fun r hr => ?_
      split
      · exact fail _
      · refine pure ⟨hr.callee, hr.args, fun f hf => ?_⟩
        simp only [Option.orElse_eq_orElse, Option.orElse_eq_or, Option.or_eq_some_iff] at hf
        rcases hf with hf | ⟨-, hf⟩
        · exact hr.frame htraits hf
        · exact hp.witness f hf
  · exact pure hp

theorem reduce (fuel : Nat) {callee : Value} (hcallee : callee.Obeys P)
    (hargs : ∀ v ∈ args, v.Obeys P) (site : CallSite) :
    (reduce fuel callee args site).Keeps P k (Reduced.Obeys P) :=
  iterate (fun _ hp => reduceStep site hp) fuel ⟨hcallee, hargs, fun _ hf => absurd hf (by simp)⟩

theorem pushWitness {w : Option WitnessFrame} (hw : ∀ f, w = some f → f.Obeys P) :
    (pushWitness w).Keeps P k fun _ => True := by
  cases w with
  | none => exact pure trivial
  | some frame =>
    refine modify (fun m h => ⟨h.global, h.store, h.registry, fun f hf => ?_⟩) fun _ => rfl
    rw [Stack.toList_push, List.mem_append, List.mem_singleton] at hf
    rcases hf with hf | rfl
    · exact h.witnesses f hf
    · exact hw f rfl

theorem pushEvidence {c : Closure} (hc : c.Obeys P) (scope : ScopeId) :
    (pushEvidence c scope).Keeps P k fun _ => True :=
  bind (pushWitness hc.captured) fun _ _ => bind machine fun _ _ =>
    pushWitness fun _ hf => Machine.Obeys.returnWitness hc hf

theorem openBody (ha : Always P a) (id : Ident) {c : Closure} (hc : c.Obeys P) {p : Pending}
    (hp : p.Obeys P) (site : CallSite) :
    (openBody a id c p site).Keeps P k (Binding.Obeys P) := by
  refine bind (pushWitness hp.witness) fun _ _ => ?_
  refine bind (bindArguments ha id hc hp.args site) fun b hb => ?_
  cases b with
  | short v => exact pure hb
  | ready scope => exact bind (pushEvidence hc scope) fun _ _ => pure hb

theorem handOver (fuel base : Nat) {step : Step} (hstep : step.Obeys P) :
    (handOver fuel base step).Keeps P k (LoopObeys P) := by
  cases step with
  | done v => exact pure hstep
  | tail callee args site =>
    refine bind (mapFault _ (reduce fuel hstep.1 hstep.2 site)) fun r hr => ?_
    cases r with
    | short v => exact pure hr
    | call next =>
      refine bind (modify (fun m h => ?_) fun _ => rfl) fun _ _ => pure hr
      exact (h.cut base).congr rfl rfl rfl

theorem runFunction (ha : Always P a) (fuel base : Nat) (id : Ident) {c : Closure}
    (hc : c.Obeys P) {st : LoopState} (hst : st.toPending.Obeys P) :
    (runFunction a fuel base id c st).Keeps P k (LoopObeys P) := by
  refine bind (mapFault _ (openBody ha id hc hst st.site)) fun b hb => ?_
  cases b with
  | short v => exact pure hb
  | ready scope =>
    refine bind (reach trivial) fun _ _ => ?_
    refine bind (mapFault _ (node ha _ hb c.func.body k (Func.follows_body hc.code)))
      fun step hstep => handOver fuel base hstep

theorem runOther (ha : Always P a) {st : LoopState} (hst : st.toPending.Obeys P) :
    (runOther a st).Keeps P k (Value.Obeys P) :=
  bind (pushWitness hst.witness) fun _ _ =>
    mapFault _ (applyNative ha hst.callee hst.args st.site)

theorem loopStep (ha : Always P a) (fuel base : Nat) {st : LoopState}
    (hst : st.toPending.Obeys P) : (loopStep a fuel base st).Keeps P k (LoopObeys P) := by
  have hcallee := hst.callee
  have other : (do return .inr (← Run.runOther a st) : Run (LoopState ⊕ Value)).Keeps P k
      (LoopObeys P) := bind (runOther ha hst) fun v hv => pure hv
  unfold Run.loopStep
  split
  · rename_i id c heq
    rw [heq] at hcallee
    exact runFunction ha fuel base id hcallee hst
  · exact other

theorem keepingWitnesses {x : Run α} (hx : x.Keeps P k A) : (keepingWitnesses x).Keeps P k A :=
  ensuring hx (fun _ h => h) (fun _ => rfl) (fun _ _ h => h.cut _) fun _ _ => rfl

theorem trampoline (ha : Always P a) (fuel : Nat) {callee : Value} (hcallee : callee.Obeys P)
    (hargs : ∀ v ∈ args, v.Obeys P) (site : CallSite) :
    (trampoline a fuel callee args site).Keeps P k (Value.Obeys P) := by
  refine keepingWitnesses (bind machine fun m _ => ?_)
  refine bind (reduce fuel hcallee hargs site) fun r hr => ?_
  cases r with
  | short v => exact pure hr
  | call p =>
    -- each round starts from a call that obeys the policy, whoever left it
    refine iterate (I := fun st => st.toPending.Obeys P) (fun st hst => ?_) fuel hr
    refine imp (loopStep ha fuel _ hst) fun r hr => ?_
    cases r <;> exact hr

theorem overflow (site : CallSite) : (overflow site).Keeps P k (Value.Obeys P) := by
  refine bind (reach trivial) fun _ _ => setting (fun _ _ => bind machine fun _ _ => throw _) ?_
  exact fun s t hlimits _ => by rw [hlimits]

theorem asCall (site : CallSite) {x : Run Value} (hx : x.Keeps P k (Value.Obeys P)) :
    (asCall site x).Keeps P k (Value.Obeys P) := by
  have hpushed {m : Machine} (h : m.Obeys P) :
      ({ m with calls := m.calls.push (m.frame site) } : Machine).Obeys P := h.congr rfl rfl rfl
  refine ⟨fun s m n hn hm hs h => ?_, fun {s t m} hst hs h => ?_⟩
  · unfold Run.asCall
    split
    · exact (overflow site).ends s m n hn hm hs h
    · exact Ends.withCall (hx.ends s _ n hn hm hs (hpushed h))
        (fun _ _ hv => ⟨hv.1, hv.2.restore rfl (hv.2.obeys.congr rfl rfl rfl) rfl⟩)
        fun _ hk => hk.restore rfl (hk.obeys.congr rfl rfl rfl) rfl
  · unfold Run.asCall
    rw [hst.limits]
    split
    · exact (overflow (k := k) site).agrees hst hs h
    · unfold Run.withCall
      dsimp only
      rw [hx.agrees hst hs (hpushed h), hst.limits]

/-- Applying a callable keeps to a policy, however deep it nests. -/
theorem apply (fuel : Nat) : Always P (apply fuel) := by
  induction fuel with
  | zero => exact fun _ _ _ _ => outOfFuel
  | succ fuel ih =>
    exact fun hcallee hargs site _ => asCall site (trampoline ih fuel hcallee hargs site)

end Loop

end Run.Keeps

end TraitLang
