import TraitLang.Proofs.KnownEvidence
import TraitLang.Proofs.ParameterBinding
import TraitLang.Proofs.Scoping

/-!
Calls and operations keep to scopes that exist. Main statement: every store that an interpreter goes
through from its start on is built from scopes below such as were there before, the laws of looking
names up and of giving them new values hold on it, and the scope that a call makes is new.
-/
namespace TraitLang

theorem Pending.Obeys.mono {n k : Nat} {p : Pending} (h : p.Obeys (.below n)) (hk : n ≤ k) :
    p.Obeys (.below k) :=
  ⟨h.callee.mono hk _, obey_mono h.args hk, fun f _ => f.obeys_below⟩

namespace Machine

variable {mach mach' : Machine} {s : Setting} {m : ClassMethod} {args : List Value}
  {site : CallSite} {route : Route} {r : Resolution}

theorem Scoped.withDefault (h : mach.Scoped) (f : Func) (place : Option (TypeKey × Bool)) :
    (mach.withDefault m f place).Scoped := by
  refine ⟨h.built, h.value, ?_⟩
  cases place with
  | none => exact h.registry
  | some place =>
    exact h.registry.addMethod (Registry.obeys_defaultClosure f.follows_lax h.global)

theorem Resolves.scoped (h : mach.Resolves m args site route r mach') (hm : mach.Scoped)
    (hargs : ∀ v ∈ args, v.Obeys (.below mach.store.scopes.size)) :
    r.Obeys (.below mach.store.scopes.size) ∧ mach'.Scoped := by
  obtain ⟨dropped, rfl, hjustified, -⟩ := h.justified
  have hdropped : ∀ d ∈ dropped, d.Obeys (.below mach.store.scopes.size) := fun d hd =>
    hargs (.dictionary d) (List.mem_append_left _ (List.mem_map_of_mem hd)) rfl
  refine ⟨⟨hjustified.obeys hm.registry hm.global hdropped,
    fun v hv => hargs v (List.mem_append_right _ hv), fun _ => trivial⟩, ?_⟩
  cases h with
  | userDefault => exact hm.withDefault _ _
  | _ => exact hm

end Machine

namespace Run.Grounded

variable {α σ : Type} {n : Nat} {A : Nat → α → Prop} {a : Apply} {args : List Value}

theorem partialApp {callee : Value} (hcallee : callee.Obeys (.below n))
    (hargs : ∀ v ∈ args, v.Obeys (.below n)) (remaining : Nat) :
    (partialApp callee args remaining).Grounded n fun k => Value.Obeys (.below k) :=
  bind fresh fun _ hk _ _ =>
    value ⟨hcallee.mono hk callee, (allObey_iff args).2 (obey_mono hargs hk)⟩

theorem iterate {step : σ → Run (σ ⊕ α)} {I : Nat → σ → Prop}
    (hstep : ∀ k x, n ≤ k → I k x → (step x).Grounded k fun j => Sum.elim (I j) (A j))
    (hA : ∀ {j k : Nat} {b : α}, j ≤ k → A j b → A k b) (fuel : Nat) {x : σ} (hx : I n x) :
    Grounded n A (iterate step fuel x) := by
  induction fuel generalizing n x with
  | zero => exact outOfFuel
  | succ fuel ih =>
    rw [iterate_succ]
    refine bind (hstep n x (Nat.le_refl n) hx) fun k hk r hr => ?_
    cases r with
    | inl y => exact ih (fun j x hj => hstep j x (Nat.le_trans hk hj)) hr
    | inr b => exact pure fun _ hj => hA hj hr

theorem evalValue (ha : Always a) (ctx : EvalCtx) {scope : ScopeId} (hscope : scope < n)
    (e : Spanned Expr) : (evalValue a ctx scope e).Grounded n fun k => Value.Obeys (.below k) :=
  settled ha (node ha e _ hscope)

section Binding

variable {c : Closure} {scope : ScopeId}

theorem bindParams (ha : Always a) (hc : c.Obeys (.below n)) (hscope : scope < n) (supplied : Nat)
    (ps : List Param) (vs : List Value) (hvs : ∀ v ∈ vs, v.Obeys (.below n)) :
    (bindParams a c scope supplied ps vs).Grounded n fun _ _ => True := by
  induction ps generalizing n vs with
  | nil => rw [Run.bindParams]; exact unit ()
  | cons p ps ih =>
    cases vs with
    | cons v vs =>
      obtain ⟨hv, hvs⟩ := List.forall_mem_cons.1 hvs
      rw [Run.bindParams]
      refine bind (define hscope p.name hv) fun k hk _ _ => ?_
      exact ih (hc.mono hk) (Nat.lt_of_lt_of_le hscope hk) vs (obey_mono hvs hk)
    | nil =>
      rw [Run.bindParams]
      split
      · rename_i e he
        refine bind (evalValue ha {} hc.live e) fun k hk v hv => ?_
        refine bind (define (Nat.lt_of_lt_of_le hscope hk) p.name hv) fun j hj _ _ => ?_
        have hj := Nat.le_trans hk hj
        exact ih (hc.mono hj) (Nat.lt_of_lt_of_le hscope hj) [] (obey_mono hvs hj)
      · exact fail _

theorem bindDictionaries (f : Func) (hscope : scope < n) {dicts : List Dictionary}
    (hdicts : ∀ d ∈ dicts, (Value.dictionary d).Obeys (.below n)) :
    (bindDictionaries f scope dicts).Grounded n fun _ _ => True := by
  cases dicts with
  | nil => exact unit ()
  | cons d ds =>
    refine bind (require (A := fun k (bs : List (String × Value)) => ∀ b ∈ bs, b.2.Obeys (.below k))
      _ fun bindings hbindings k hk => ?_) fun k hk bindings hbindings =>
        defineAll (Nat.lt_of_lt_of_le hscope hk) hbindings
    exact obeys_of_witnessBindings? ((hdicts d List.mem_cons_self).mono hk _) _ _
      (fun e he => (hdicts e he).mono hk _) hbindings

theorem bindTypes (hscope : scope < n) (site : CallSite) :
    (bindTypes scope site).Grounded n fun _ _ => True := by
  refine bind machine fun k hk m _ => defineAll (Nat.lt_of_lt_of_le hscope hk) fun b hb => ?_
  obtain ⟨e, -, rfl⟩ := List.mem_map.1 hb
  trivial

theorem bindSurplus (f : Func) (hscope : scope < n) {plain : List Value}
    (hplain : ∀ v ∈ plain, v.Obeys (.below n)) :
    (bindSurplus f scope plain).Grounded n fun _ _ => True := by
  unfold Run.bindSurplus
  split
  · split
    · refine define hscope _ ((allObey_iff _).2 fun v hv => ?_)
      exact hplain v (List.mem_of_mem_drop hv)
    · exact unit ()
  · exact unit ()

theorem bindScope (ha : Always a) (hc : c.Obeys (.below n))
    (hargs : ∀ v ∈ args, v.Obeys (.below n)) (site : CallSite) :
    (bindScope a c args site).Grounded n fun k scope => scope < k := by
  have hplain := obeys_of_mem_plainArgs hargs
  have hdicts := obeys_of_mem_leadingDictionaries hargs
  refine bind (newScope hc.live) fun k₁ h₁ scope hscope => ?_
  refine bind (bindDictionaries _ hscope fun d hd => (hdicts d hd).mono h₁ _) fun k₂ h₂ _ _ => ?_
  have hscope := Nat.lt_of_lt_of_le hscope h₂
  refine bind (bindTypes hscope site) fun k₃ h₃ _ _ => ?_
  have hscope := Nat.lt_of_lt_of_le hscope h₃
  have h₃ := Nat.le_trans h₁ (Nat.le_trans h₂ h₃)
  refine bind (bindParams ha (hc.mono h₃) hscope _ _ _ (obey_mono hplain h₃)) fun k₄ h₄ _ _ => ?_
  have hscope := Nat.lt_of_lt_of_le hscope h₄
  refine bind (bindSurplus _ hscope (obey_mono hplain (Nat.le_trans h₃ h₄))) fun k₅ h₅ _ _ => ?_
  exact pure fun k hk => Nat.lt_of_lt_of_le hscope (Nat.le_trans h₅ hk)

theorem bindArguments (ha : Always a) (id : Ident) (hc : c.Obeys (.below n))
    (hargs : ∀ v ∈ args, v.Obeys (.below n)) (site : CallSite) :
    (bindArguments a id c args site).Grounded n fun k => Binding.Obeys (.below k) := by
  have hcallee : (Value.function id c).Obeys (.below n) := hc
  unfold Run.bindArguments
  dsimp only
  split
  · split
    · exact fail _
    · exact bind (partialApp hcallee hargs _) fun k _ v hv => pure fun j hj => hv.mono hj v
  · split
    · exact fail _
    · exact bind (bindScope ha hc hargs site) fun k _ scope hscope =>
        pure fun j hj => Nat.lt_of_lt_of_le hscope hj

end Binding

theorem resolve (m : ClassMethod) (hargs : ∀ v ∈ args, v.Obeys (.below n)) (site : CallSite) :
    (resolve m args site).Grounded n fun k => Resolution.Obeys (.below k) := by
  intro s mach hn _ h
  refine Outcome.Ends.imp (resolve_cases m args site s mach) (fun r mach' ⟨route, hroute⟩ => ?_)
    (fun mach' heq => by rw [heq]; exact .refl h) fun mach' heq => by rw [heq]; exact h
  obtain ⟨hr, hmach'⟩ := hroute.scoped h (obey_mono hargs hn)
  rw [hroute.store_eq]
  exact ⟨hr, .of_store_eq hmach' hroute.store_eq⟩

section Loading

theorem forM {f : σ → Run Unit} {as : List σ}
    (hf : ∀ x ∈ as, ∀ k, n ≤ k → (f x).Grounded k fun _ _ => True) :
    (as.forM f).Grounded n fun _ _ => True := by
  induction as generalizing n with
  | nil => exact unit ()
  | cons x as ih =>
    obtain ⟨hx, has⟩ := List.forall_mem_cons.1 hf
    refine bind (hx n (Nat.le_refl n)) fun k hk _ _ => ?_
    exact ih fun y hy j hj => has y hy j (Nat.le_trans hk hj)

theorem registry {f : Registry → Registry}
    (hf : ∀ k r, n ≤ k → r.Obeys (.below k) → (f r).Obeys (.below k)) :
    (Run.modify fun m => { m with registry := f m.registry }).Grounded n fun _ _ => True :=
  fun _ _ hn _ h => ⟨trivial, .of_store_eq ⟨h.built, h.value, hf _ _ hn h.registry⟩ rfl⟩

theorem register {r : Registration} (hr : ∀ k, n ≤ k → r.Obeys (.below k)) :
    (register r).Grounded n fun _ _ => True := by
  cases r with
  | traitDefault traitName method v =>
    exact registry fun k _ hk h => h.addBuiltinDefault traitName method (hr k hk)
  | instanceMethod traitName types method v =>
    exact registry fun k _ hk h => h.addMethod (hr k hk)
  | bridge name | fallback name => exact modify (fun _ => rfl) fun _ => rfl

variable (hglobal : Store.global < n)

include hglobal

theorem declare (item : Item) : (declare item).Grounded n fun _ _ => True := by
  -- a declared function stands in the global scope
  have closure (f : Func) (owner : Option String) {k : Nat} (hk : n ≤ k) :
      ({ func := f, scope := Store.global, owner } : Closure).Obeys (.below k) :=
    ⟨f.follows_lax, Nat.lt_of_lt_of_le hglobal hk, fun _ h => by cases h⟩
  have bound (name : String) {v : Value} {k : Nat} (hk : n ≤ k) (hv : v.Obeys (.below k)) :
      (Run.define Store.global name v).Grounded k fun _ _ => True :=
    define (Nat.lt_of_lt_of_le hglobal hk) name hv
  cases item with
  | func f =>
    exact bind fresh fun k hk id _ => bound _ (v := .function id _) hk (closure f none hk)
  | data d =>
    refine forM fun c _ k hk => ?_
    split
    · exact bound _ hk (by simp)
    · exact bind fresh fun j hj _ _ => bound _ (Nat.le_trans hk hj) trivial
  | traitDecl t =>
    refine bind (registry (f := fun r => r.declare t) fun _ _ _ h =>
      ⟨h.method, h.userDefault, h.builtinDefault⟩) fun k hk _ _ => ?_
    exact forM fun _ _ j hj => bind fresh fun i hi _ _ =>
      bound _ (Nat.le_trans hk (Nat.le_trans hj hi)) rfl
  | inst d =>
    refine bind (registry fun _ _ _ h => h.addInstance d.traitName _) fun k hk _ _ => ?_
    refine forM fun f _ j hj => bind fresh fun i hi id _ => ?_
    have hi := Nat.le_trans hk (Nat.le_trans hj hi)
    exact registry fun l _ hl h => h.addMethod (v := .function id _)
      (closure f (some d.traitName) (Nat.le_trans hi hl))
  | const c => exact unit ()

theorem defineConst (ha : Always a) (item : Item) :
    (defineConst a item).Grounded n fun _ _ => True := by
  cases item with
  | const c =>
    refine bind (evalValue ha _ hglobal _) fun k hk v hv => ?_
    exact define (Nat.lt_of_lt_of_le hglobal hk) _ hv
  | _ => exact unit ()

theorem loading (ha : Always a) (p : AnalyzedProgram) :
    (loading a p).Grounded n fun _ _ => True := by
  have absorbed : (Run.modify fun m =>
      { m with
        file := if p.program.file.isEmpty then m.file else p.program.file
        hints := p.hints
        registry := m.registry.absorb p.hints }).Grounded n fun _ _ => True :=
    fun _ _ _ _ h => ⟨trivial, .of_store_eq
      ⟨h.built, h.value, h.registry.absorb fun _ _ f _ => f.follows_lax⟩ rfl⟩
  refine bind absorbed fun k hk _ _ => ?_
  refine bind (forM fun item _ j hj => ?_) fun j hj _ _ => forM fun item _ i hi => ?_
  · exact declare (Nat.lt_of_lt_of_le hglobal (Nat.le_trans hk hj)) item
  · exact defineConst (Nat.lt_of_lt_of_le hglobal (Nat.le_trans hk (Nat.le_trans hj hi))) ha item

end Loading

section Natives

theorem callGlobal (ha : Always a) (name : String) (hargs : ∀ v ∈ args, v.Obeys (.below n)) :
    (callGlobal a name args).Grounded n fun k => Value.Obeys (.below k) :=
  bind (lookup _ name) fun _ hk _ hcallee => ha hcallee (obey_mono hargs hk) _

/-- What a native function goes on with may refer to scopes that were made in between. -/
theorem perform (ha : Always a) (act : Action) (hact : ∀ k, n ≤ k → act.Obeys (.below k)) :
    (perform a act).Grounded n fun k => Value.Obeys (.below k) := by
  have hle := Nat.le_refl n
  induction act generalizing n with
  | done v => exact value (hact n hle)
  | fail f => exact throw f
  | write text next ih =>
    refine bind (modify (fun _ => rfl) fun _ => rfl) fun k hk _ _ => ?_
    exact ih (fun j hj => hact j (Nat.le_trans hk hj)) (Nat.le_refl k)
  | fresh next ih =>
    refine bind fresh fun k hk id _ => ?_
    exact ih id (fun j hj => hact j (Nat.le_trans hk hj) id) (Nat.le_refl k)
  | depths next ih =>
    refine bind (reach _) fun k hk _ _ => bind machine fun j hj m _ => ?_
    exact ih _ _ _ (fun i hi => hact i (Nat.le_trans hk (Nat.le_trans hj hi)) _ _ _) (Nat.le_refl j)
  | limits next ih =>
    refine bind (reach _) fun k hk _ _ => bind setting fun j hj s _ => ?_
    exact ih _ (fun i hi => hact i (Nat.le_trans hk (Nat.le_trans hj hi)) _) (Nat.le_refl j)
  | look next ih =>
    intro s m hn hs h
    rw [Run.perform, machine_bind]
    -- what the native function sees is within the scopes that are there now
    refine ih m.registry m.store (n := m.store.scopes.size) (fun k hk => ?_) (Nat.le_refl _) s m
      (Nat.le_refl _) (hs.mono hn) h
    exact hact k (Nat.le_trans hn hk) _ _ (h.registry.mono hk) (h.shows hk)
  | newScope parent next ih =>
    refine bind (newScope (hact n hle).1) fun k hk id hid => ?_
    exact ih id (fun j hj => (hact j (Nat.le_trans hk hj)).2 id (Nat.lt_of_lt_of_le hid hj))
      (Nat.le_refl k)
  | define scope name v next ih =>
    obtain ⟨-, hscope, hv, -⟩ := hact n hle
    refine bind (define hscope name hv) fun k hk _ _ => ?_
    exact ih (fun j hj => (hact j (Nat.le_trans hk hj)).2.2.2) (Nat.le_refl k)
  | assign scope name v next ih =>
    obtain ⟨-, -, hv, -⟩ := hact n hle
    refine bind (attempt (assign scope name hv)) fun k hk r _ => ?_
    exact ih _ (fun j hj => (hact j (Nat.le_trans hk hj)).2.2.2 _) (Nat.le_refl k)
  | apply callee args site next ih =>
    obtain ⟨hcallee, hargs, -⟩ := hact n hle
    refine bind (attempt (ha hcallee hargs site)) fun k hk r hr => ?_
    exact ih r (fun j hj => (hact j (Nat.le_trans hk hj)).2.2 r fun v hv => (hr v hv).mono hj v)
      (Nat.le_refl k)
  | call name args next ih =>
    refine bind (attempt (callGlobal ha name (hact n hle).1)) fun k hk r hr => ?_
    exact ih r (fun j hj => (hact j (Nat.le_trans hk hj)).2 r fun v hv => (hr v hv).mono hj v)
      (Nat.le_refl k)
  | eval e next ih =>
    refine of_global fun k hk hglobal => ?_
    refine bind (attempt (evalValue ha {} hglobal e)) fun j hj r hr => ?_
    have hj := Nat.le_trans hk hj
    exact ih r (fun i hi => (hact i (Nat.le_trans hj hi)).2 r fun v hv => (hr v hv).mono hi v)
      (Nat.le_refl j)
  | resolve method args site next ih =>
    refine bind (attempt (resolve method (hact n hle).2.1 site)) fun k hk r hr => ?_
    refine ih r (fun j hj => (hact j (Nat.le_trans hk hj)).2.2 r fun res hres => ?_) (Nat.le_refl k)
    have hobeys := hr res hres
    exact ⟨hobeys.callee.mono hj _, obey_mono hobeys.args hj, fun _ => trivial⟩
  | load p next ih =>
    refine of_global fun k hk hglobal => ?_
    refine bind (attempt (loading hglobal ha p)) fun j hj r _ => ?_
    have hj := Nat.le_trans hk hj
    exact ih r (fun i hi => (hact i (Nat.le_trans hj hi)).2.2 r) (Nat.le_refl j)
  | register r next ih =>
    refine bind (register fun k hk => (hact k hk).1) fun k hk _ _ => ?_
    exact ih (fun j hj => (hact j (Nat.le_trans hk hj)).2) (Nat.le_refl k)

theorem runNative (ha : Always a) (hargs : ∀ v ∈ args, v.Obeys (.below n)) {native : Native}
    (hnative : native.Obeys (.below n)) :
    (runNative a args native).Grounded n fun k => Value.Obeys (.below k) := by
  cases native with
  | core c => exact perform ha _ fun _ _ => CoreNative.obeys_action c args
  | host name =>
    refine bind setting fun k hk s hs => perform ha _ fun j hj => ?_
    exact (hs j (Nat.le_trans hk hj)).native name (obey_mono hargs (Nat.le_trans hk hj))
  | resume name rest body scope =>
    have hfirst : (args.headD .unit).Obeys (.below n) := by
      cases args with
      | nil => trivial
      | cons v args => exact hargs v List.mem_cons_self
    refine bind (newScope hnative.1) fun k hk inner hinner => ?_
    refine bind (define hinner name (hfirst.mono hk _)) fun j hj _ _ => ?_
    exact settled ha (form ha _ {} {} (Nat.lt_of_lt_of_le hinner hj))

theorem invoke (ha : Always a) {b : Builtin} (hb : b.Obeys (.below n))
    (hargs : ∀ v ∈ args, v.Obeys (.below n)) :
    (invoke a b args).Grounded n fun k => Value.Obeys (.below k) :=
  bind (reach _) fun _ hk _ _ =>
    runNative ha (obey_mono hargs hk) (Native.Obeys.mono ((Builtin.obeys_iff b).1 hb).1 hk)

theorem callBuiltin (ha : Always a) {b : Builtin} (hb : b.Obeys (.below n))
    (hargs : ∀ v ∈ args, v.Obeys (.below n)) :
    (callBuiltin a b args).Grounded n fun k => Value.Obeys (.below k) := by
  have hcallee : (Value.builtin b).Obeys (.below n) := hb
  have hplain := obeys_of_mem_plainArgs hargs
  have hdefaults := ((Builtin.obeys_iff b).1 hb).2
  unfold Run.callBuiltin
  split
  · exact invoke ha hb hargs
  · dsimp only
    split
    · exact fail _
    · split
      · exact partialApp hcallee hplain _
      · split
        · exact fail _
        · refine invoke ha hb fun v hv => ?_
          rcases List.mem_append.1 hv with hv | hv
          · exact hplain v hv
          · exact hdefaults v (List.mem_of_mem_drop hv)

theorem fallback : Run.fallback.Grounded n fun _ o => ∀ handler, o = some handler → ∀ k, n ≤ k →
    ∀ {callee args v}, callee.Obeys (.below k) → (∀ v ∈ args, v.Obeys (.below k)) →
      handler callee args = some (.ok v) → v.Obeys (.below k) :=
  fun _ _ _ hs h => ⟨fun _ hhandler k hk => (hs k hk).fallback hhandler, .refl h⟩

theorem applyNative (ha : Always a) {callee : Value} (hcallee : callee.Obeys (.below n))
    (hargs : ∀ v ∈ args, v.Obeys (.below n)) (site : CallSite) :
    (applyNative a callee args site).Grounded n fun k => Value.Obeys (.below k) := by
  unfold Run.applyNative
  dsimp only
  split
  · exact mapFault _ (callBuiltin ha hcallee hargs)
  · refine mapFault _ ?_
    split
    · exact value ((allObey_iff args).2 hargs)
    · split
      · exact fail _
      · split
        · exact partialApp hcallee hargs _
        · exact fail _
  · refine mapFault _ ?_
    split
    · exact fail _
    · exact partialApp hcallee hargs _
    · exact ofCause fun v hv k hk => BinOp.obeys_of_eval ((hargs _ (by simp)).mono hk _)
        ((hargs _ (by simp)).mono hk _) hv
    · exact fail _
  · refine bind (ha hcallee.2 hargs site) fun k hk v hv =>
      mapFault _ (ha (hcallee.1.mono hk _) ?_ site)
    exact fun w hw => List.mem_singleton.1 hw ▸ hv
  iterate 4 exact mapFault _ (ha hcallee hargs site)
  · refine bind fallback fun k hk o ho => mapFault _ (ofExcept fun v hv j hj => ?_)
    have hj := Nat.le_trans hk hj
    cases hanswer : o.bind fun handler => handler callee args with
    | none => simp [hanswer] at hv
    | some answer =>
      obtain ⟨handler, hhandler, happly⟩ := Option.bind_eq_some_iff.1 hanswer
      rw [hanswer, Option.getD_some] at hv
      exact ho handler hhandler j hj (hcallee.mono hj callee) (obey_mono hargs hj) (hv ▸ happly)

end Natives

section Loop

theorem reduceStep (site : CallSite) {p : Pending} (hp : p.Obeys (.below n)) :
    (reduceStep site p).Grounded n fun k =>
      Sum.elim (Pending.Obeys (.below k)) (Reduced.Obeys (.below k)) := by
  have hcallee := hp.callee
  unfold Run.reduceStep
  split
  · rename_i callee first _ heq
    rw [heq] at hcallee
    refine pure fun k hk => ⟨hcallee.1.mono hk _, fun v hv => ?_, fun f _ => f.obeys_below⟩
    rcases List.mem_append.1 hv with hv | hv
    · exact ((allObey_iff first).1 hcallee.2 v hv).mono hk v
    · exact (hp.args v hv).mono hk v
  · rename_i callee receiver heq
    rw [heq] at hcallee
    exact pure fun k hk => ⟨hcallee.1.mono hk _,
      List.forall_mem_cons.2 ⟨hcallee.2.mono hk _, obey_mono hp.args hk⟩, fun f _ => f.obeys_below⟩
  · dsimp only
    split
    · exact bind (partialApp hcallee hp.args _) fun k _ v hv => pure fun j hj => hv.mono hj v
    · refine bind (resolve _ hp.args site) fun k _ r hr => ?_
      split
      · exact fail _
      · exact pure fun j hj =>
          ⟨hr.callee.mono hj _, obey_mono hr.args hj, fun f _ => f.obeys_below⟩
  · exact pure fun k hk => hp.mono hk

theorem reduce (fuel : Nat) {callee : Value} (hcallee : callee.Obeys (.below n))
    (hargs : ∀ v ∈ args, v.Obeys (.below n)) (site : CallSite) :
    (reduce fuel callee args site).Grounded n fun k => Reduced.Obeys (.below k) := by
  refine iterate (I := fun k => Pending.Obeys (.below k)) (fun _ _ _ hp => reduceStep site hp)
    (fun {j k r} hjk hr => ?_) fuel ⟨hcallee, hargs, fun _ hf => absurd hf (by simp)⟩
  cases r with
  | call p => exact Pending.Obeys.mono hr hjk
  | short v => exact Value.Obeys.mono hjk v hr

theorem pushWitness (w : Option WitnessFrame) : (pushWitness w).Grounded n fun _ _ => True := by
  cases w with
  | none => exact unit ()
  | some frame => exact modify (fun _ => rfl) fun _ => rfl

theorem pushEvidence (c : Closure) (scope : ScopeId) :
    (pushEvidence c scope).Grounded n fun _ _ => True :=
  bind (pushWitness _) fun _ _ _ _ => bind machine fun _ _ _ _ => pushWitness _

theorem openBody (ha : Always a) (id : Ident) {c : Closure} (hc : c.Obeys (.below n)) {p : Pending}
    (hp : p.Obeys (.below n)) (site : CallSite) :
    (openBody a id c p site).Grounded n fun k => Binding.Obeys (.below k) := by
  refine bind (pushWitness _) fun k hk _ _ => ?_
  refine bind (bindArguments ha id (hc.mono hk) (obey_mono hp.args hk) site) fun j _ b hb => ?_
  cases b with
  | short v => exact pure fun i hi => Value.Obeys.mono hi v hb
  | ready scope =>
    exact bind (pushEvidence c scope) fun i hi _ _ =>
      pure fun l hl => Nat.lt_of_lt_of_le hb (Nat.le_trans hi hl)

theorem handOver (fuel base : Nat) {step : Step} (hstep : step.Obeys (.below n)) :
    (handOver fuel base step).Grounded n fun k => LoopObeys (.below k) := by
  cases step with
  | done v => exact pure fun k hk => Value.Obeys.mono hk v hstep
  | tail callee args site =>
    refine bind (mapFault _ (reduce fuel hstep.1 hstep.2 site)) fun k _ r hr => ?_
    cases r with
    | short v => exact pure fun j hj => Value.Obeys.mono hj v hr
    | call next =>
      refine bind (modify (fun _ => rfl) fun _ => rfl) fun j hj _ _ => pure fun i hi => ?_
      exact Pending.Obeys.mono hr (Nat.le_trans hj hi)

theorem runFunction (ha : Always a) (fuel base : Nat) (id : Ident) {c : Closure}
    (hc : c.Obeys (.below n)) {st : LoopState} (hst : st.toPending.Obeys (.below n)) :
    (runFunction a fuel base id c st).Grounded n fun k => LoopObeys (.below k) := by
  refine bind (mapFault _ (openBody ha id hc hst st.site)) fun k _ b hb => ?_
  cases b with
  | short v => exact pure fun j hj => Value.Obeys.mono hj v hb
  | ready scope =>
    refine bind (reach _) fun j hj _ _ => ?_
    exact bind (mapFault _ (node ha c.func.body _ (Nat.lt_of_lt_of_le hb hj)))
      fun _ _ step hstep => handOver fuel base hstep

theorem runOther (ha : Always a) {st : LoopState} (hst : st.toPending.Obeys (.below n)) :
    (runOther a st).Grounded n fun k => Value.Obeys (.below k) :=
  bind (pushWitness _) fun _ hk _ _ =>
    mapFault _ (applyNative ha (hst.callee.mono hk _) (obey_mono hst.args hk) st.site)

theorem loopStep (ha : Always a) (fuel base : Nat) {st : LoopState}
    (hst : st.toPending.Obeys (.below n)) :
    (loopStep a fuel base st).Grounded n fun k => LoopObeys (.below k) := by
  have hcallee := hst.callee
  unfold Run.loopStep
  split
  · rename_i id c heq
    rw [heq] at hcallee
    exact runFunction ha fuel base id hcallee hst
  · exact bind (runOther ha hst) fun k _ v hv => pure fun j hj => hv.mono hj v

theorem keepingWitnesses {x : Run α} (hx : x.Grounded n A) : (keepingWitnesses x).Grounded n A :=
  fun s m hn hs h => ensuring rfl (fun _ => rfl) (fun _ => rfl) (hx s m hn hs h)

theorem trampoline (ha : Always a) (fuel : Nat) {callee : Value} (hcallee : callee.Obeys (.below n))
    (hargs : ∀ v ∈ args, v.Obeys (.below n)) (site : CallSite) :
    (trampoline a fuel callee args site).Grounded n fun k => Value.Obeys (.below k) := by
  refine keepingWitnesses (bind machine fun k hk m _ => ?_)
  refine bind (reduce fuel (hcallee.mono hk callee) (obey_mono hargs hk) site) fun j _ r hr => ?_
  cases r with
  | short v => exact value hr
  | call p =>
    refine iterate (I := fun k st => st.toPending.Obeys (.below k)) (fun i st _ hst => ?_)
      (fun hik hv => hv.mono hik _) fuel hr
    refine imp (loopStep ha fuel _ hst) fun _ r hr => ?_
    cases r <;> exact hr

theorem overflow (site : CallSite) : (overflow site).Grounded n fun k => Value.Obeys (.below k) :=
  bind (reach _) fun _ _ _ _ => bind setting fun _ _ _ _ => bind machine fun _ _ _ _ => throw _

theorem asCall (site : CallSite) {x : Run Value}
    (hx : x.Grounded n fun k => Value.Obeys (.below k)) :
    (asCall site x).Grounded n fun k => Value.Obeys (.below k) := by
  intro s m hn hs h
  unfold Run.asCall
  split
  · exact overflow site s m hn hs h
  · let pushed : Machine := { m with calls := m.calls.push (m.frame site) }
    have hcut (m' : Machine) (h' : pushed.Extends m') :
        m.Extends { m' with calls := m'.calls.cut m.calls.depth } :=
      ⟨h'.size_le, h'.after.congr rfl rfl⟩
    exact Ends.withCall (hx s pushed hn hs (h.congr rfl rfl))
      (fun _ m' hv => ⟨hv.1, hcut m' hv.2⟩) hcut

/-- Applying a callable keeps to scopes that are there, however deep it nests. -/
theorem apply (fuel : Nat) : Always (apply fuel) := by
  induction fuel with
  | zero => exact fun _ _ _ => outOfFuel
  | succ fuel ih =>
    exact fun hcallee hargs site => asCall site (trampoline ih fuel hcallee hargs site)

end Loop

section Registering

variable {native : Native} {defaults : List Value}

theorem newBuiltin (name : String) (hnative : native.Obeys (.below n)) (signature : Option Ty)
    (hdefaults : ∀ v ∈ defaults, v.Obeys (.below n)) :
    (Interpreter.newBuiltin name native signature defaults).Grounded n
      fun k => Value.Obeys (.below k) :=
  bind fresh fun _ hk _ _ =>
    value ((Builtin.obeys_iff _).2 ⟨Native.Obeys.mono hnative hk, obey_mono hdefaults hk⟩)

theorem addBuiltin (name : String) (hnative : native.Obeys (.below n)) (signature : Option Ty)
    (hdefaults : ∀ v ∈ defaults, v.Obeys (.below n)) :
    (Interpreter.addBuiltin name native signature defaults).Grounded n fun _ _ => True := by
  refine bind (newBuiltin name hnative signature hdefaults) fun k _ v hv => ?_
  exact of_global fun j hj hglobal => define hglobal name (hv.mono hj v)

end Registering

end Run.Grounded

namespace Interpreter

/-- From `n` scopes on, what the embedding program supplies refers to scopes that are there. -/
def Operation.Scoped (n : Nat) (op : Operation) : Prop := ∀ k, n ≤ k → op.Obeys (.below k)

structure Scoped (i : Interpreter) : Prop where
  machine : i.machine.Scoped
  host : i.setting.host.Scoped i.machine.store.scopes.size

theorem Operation.code_grounded {n : Nat} {op : Operation} (hop : op.Scoped n) :
    op.code.Grounded n fun k vs => ∀ v ∈ vs, v.Obeys (.below k) := by
  have hle := Nat.le_refl n
  have one {x : Run Value} (hx : x.Grounded n fun k => Value.Obeys (.below k)) :
      (do return [← x] : Run (List Value)).Grounded n fun k vs => ∀ v ∈ vs, v.Obeys (.below k) :=
    .bind hx fun k _ v hv => .pure fun j hj w hw => List.mem_singleton.1 hw ▸ hv.mono hj v
  have none {x : Run Unit} (hx : x.Grounded n fun _ _ => True) :
      (do x; return [] : Run (List Value)).Grounded n
        fun k vs => ∀ v ∈ vs, v.Obeys (.below k) :=
    .bind hx fun _ _ _ _ => .pure fun _ _ _ hw => absurd hw List.not_mem_nil
  cases op with
  | load fuel p => exact none (.of_global fun _ _ hglobal => .loading hglobal (.apply fuel) p)
  | run fuel => exact one (.callGlobal (.apply fuel) _ fun _ hv => absurd hv List.not_mem_nil)
  | call fuel name args => exact one (.callGlobal (.apply fuel) name (hop n hle))
  | eval fuel e => exact one (.of_global fun _ _ hglobal => .evalValue (.apply fuel) {} hglobal e)
  | apply fuel callee args site => exact one (.apply fuel (hop n hle).1 (hop n hle).2 site)
  | resolve m args site =>
    refine .bind (.resolve m (hop n hle) site) fun k _ r hr => .pure fun j hj => ?_
    exact List.forall_mem_cons.2 ⟨hr.callee.mono hj _, obey_mono hr.args hj⟩
  | defineGlobal name v =>
    exact none (.of_global fun k hk hglobal => .define hglobal name (hop k hk))
  | addBuiltin name native signature defaults =>
    exact none (.addBuiltin name (hop n hle).1 signature (hop n hle).2)
  | addTraitDefault | addInstanceMethod => exact none (.register hop)
  | takeOutput | setHost => exact none (.modify (fun _ => rfl) fun _ => rfl)

theorem Scoped.exec {α : Type} {A : Nat → α → Prop} {i : Interpreter} {x : Run α} (hi : i.Scoped)
    (hx : x.Grounded i.machine.store.scopes.size A) : (i.exec x).2.Scoped := by
  have h := hx i.setting i.machine (Nat.le_refl _) hi.host hi.machine
  unfold Interpreter.exec
  cases hxm : x i.setting i.machine with
  | done a m => rw [hxm] at h; exact ⟨h.2.after, hi.host.mono h.2.size_le⟩
  | failed f m => rw [hxm] at h; exact ⟨h.after, hi.host.mono h.size_le⟩
  | halted why => exact hi

theorem Operation.Scoped.host {n : Nat} {op : Operation} (hop : op.Scoped n) {s : Setting}
    (hs : s.host.Scoped n) : (op.setting s).host.Scoped n :=
  fun k hk => Operation.host_setting (hop k hk) (hs k hk)

theorem Scoped.perform {i : Interpreter} (hi : i.Scoped) {op : Operation}
    (hop : op.Scoped i.machine.store.scopes.size) : (op.perform i).Scoped := by
  rw [perform_eq_exec]
  have hready : Scoped { i with setting := op.setting i.setting } := ⟨hi.machine, hop.host hi.host⟩
  exact hready.exec (Operation.code_grounded hop)

theorem Scoped.registerCore {i : Interpreter} (hi : i.Scoped) :
    (i.update registerCore).Scoped := by
  have hdefaults (k : Nat) : ∀ e ∈ CoreNative.globals, ∀ v ∈ e.2.2.2, v.Obeys (.below k) := by
    simp [CoreNative.globals]
  unfold update Interpreter.registerCore
  -- as for a policy, the lists are kept from unification
  generalize CoreNative.globals = globals at hdefaults ⊢
  generalize CoreNative.traitDefaults = traitDefaults
  refine hi.exec (.bind (.forM fun e he k _ => ?_) fun _ _ _ _ => .forM fun e _ k _ => ?_)
  · obtain ⟨name, native, signature, defaults⟩ := e
    have hnative : (Native.core native).Obeys (.below k) := trivial
    exact .addBuiltin name hnative signature (hdefaults k _ he)
  · obtain ⟨traitName, method, native, signature⟩ := e
    have hnative : (Native.core native).Obeys (.below k) := trivial
    have hnone : ∀ v ∈ ([] : List Value), v.Obeys (.below k) :=
      fun _ hv => absurd hv List.not_mem_nil
    exact .bind (.newBuiltin _ hnative _ hnone) fun _ _ v hv =>
      .register fun _ hk => hv.mono hk v

theorem scoped_create (limits : Limits) {host : Host} (hhost : host.Scoped 1) :
    (create limits host).Scoped := by
  have hempty : ({} : Machine).Scoped := by
    refine ⟨.fresh, fun {id name v} hv => ?_, ⟨fun hv => ?_, fun hf => ?_, fun hv => ?_⟩⟩
    · cases id <;> cases hv
    · cases hv
    · cases hf
    · cases hv
  exact Scoped.registerCore ⟨hempty, hhost⟩

/-- Interpreters that an embedding program can get which refers to scopes that are there. -/
inductive Attainable (limits : Limits) (host : Host) : Interpreter → Prop where
  | new : Attainable limits host (create limits host)
  | step {i : Interpreter} {op : Operation} : Attainable limits host i →
      op.Scoped i.machine.store.scopes.size → Attainable limits host (op.perform i)

theorem Attainable.scoped {limits : Limits} {host : Host} {i : Interpreter}
    (h : Attainable limits host i) (hhost : host.Scoped 1) : i.Scoped := by
  induction h with
  | new => exact scoped_create limits hhost
  | step _ hop ih => exact ih.perform hop

/-- On every machine that an operation goes through, values refer to scopes that are there. -/
theorem Scoped.visits {i : Interpreter} (hi : i.Scoped) {op : Operation}
    (hop : op.Scoped i.machine.store.scopes.size) {m : Machine} (hm : op.Visits i m) :
    m.Scoped := by
  obtain ⟨debugger, hm⟩ := hm
  have hhost : (op.setting { i.setting with breakpoint := debugger }).host.Scoped
      i.machine.store.scopes.size := hop.host hi.host
  have h := Operation.code_grounded hop (op.setting { i.setting with breakpoint := debugger })
    i.machine (Nat.le_refl _) hhost hi.machine
  have hends : Outcome.Ends _ _ _ _ := Outcome.Ends.imp h (fun _ _ h => h.2.after)
    (fun _ h => h.after) fun _ => id
  exact hends.of_machine? hm

end Interpreter

theorem Policy.below_permits_hiding (n : Nat) : (Policy.below n).Permits (.hiding n) :=
  ⟨rfl, fun hid => Nat.ne_of_lt hid, id⟩

/-- Where values refer to scopes that are there, a call makes a scope that nothing refers to. -/
theorem Machine.Scoped.opensNew {m : Machine} (h : m.Scoped) {s : Setting}
    (hs : s.host.Obeys (.hiding m.store.scopes.size)) {c : Closure}
    (hc : c.Obeys (.below m.store.scopes.size)) : c.OpensNew s m where
  scope := Nat.ne_of_lt hc.live
  host := hs
  global := Nat.ne_of_lt h.global
  parent {id scope p} hscope hparent := by
    have hid : id < m.store.scopes.size := (Array.getElem?_eq_some_iff.1 hscope).1
    exact Nat.ne_of_lt ((h.shows (Nat.le_refl _)).parent hid hscope hparent)
  value {id scope name v} hscope hv := by
    have hid : id < m.store.scopes.size := (Array.getElem?_eq_some_iff.1 hscope).1
    exact ((h.shows (Nat.le_refl _)).value hid hscope hv).imp (Policy.below_permits_hiding _) v
  registry := h.registry.imp (Policy.below_permits_hiding _)

/-- On every machine that an operation goes through, a call of a function that a name stands for
makes a scope that nothing refers to, given that the host makes up no scopes. -/
theorem Interpreter.Attainable.opensNew {limits : Limits} {host : Host} {i : Interpreter}
    (hi : Attainable limits host i) (hhost : host.Scoped 1) {op : Operation}
    (hop : op.Scoped i.machine.store.scopes.size) {m : Machine} (hm : op.Visits i m)
    {s : Setting} (hs : s.host.Obeys (.hiding m.store.scopes.size)) {scope : ScopeId}
    {name : String} {id : Ident} {c : Closure}
    (hc : m.store.get? scope name = some (.function id c)) : c.OpensNew s m := by
  have hscoped := (hi.scoped hhost).visits hop hm
  exact hscoped.opensNew hs (hscoped.get? hc)

theorem Run.assign_of_set {m : Machine} {st : Store} {scope : ScopeId} {name : String} {v : Value}
    (h : m.store.set? scope name v = some st) (s : Setting) :
    assign scope name v s m = .done () { m with store := st } := by
  simp [assign, h]

theorem Run.assign_of_not_set {m : Machine} {scope : ScopeId} {name : String} {v : Value}
    (h : m.store.set? scope name v = none) (s : Setting) :
    assign scope name v s m = .failed { cause := .undefinedVariable name } m := by
  simp [assign, h]

/-- The laws of looking names up and of giving them new values hold on every store that is built
from a fresh one, and an interpreter goes through such stores only. An assignment gives a name its
new value as the laws say, or fails and changes nothing. -/
theorem environment_laws :
    (∀ st : Store, st.Built → st.Lawful) ∧
    (∀ limits host i, host.Scoped 1 → Interpreter.Attainable limits host i →
      i.machine.store.Built ∧ ∀ op : Interpreter.Operation,
        op.Scoped i.machine.store.scopes.size → ∀ m, op.Visits i m → m.store.Built) ∧
    ∀ (m : Machine) scope name v s,
      (∀ st, m.store.set? scope name v = some st →
        Run.assign scope name v s m = .done () { m with store := st }) ∧
      (m.store.set? scope name v = none →
        Run.assign scope name v s m = .failed { cause := .undefinedVariable name } m) := by
  refine ⟨fun st h => h.lawful, fun limits host i hhost hi => ?_, fun m scope name v s => ?_⟩
  · have hscoped := hi.scoped hhost
    exact ⟨hscoped.machine.built, fun op hop m hm => (hscoped.visits hop hm).built⟩
  · exact ⟨fun st h => Run.assign_of_set h s, fun h => Run.assign_of_not_set h s⟩

namespace Shadowing

/-- A global `x`, and two scopes below of which the second has an `x` of its own. -/
def store : Store :=
  (((Store.fresh.define 0 "x" (.int 1)).child 0).1.child 1).1.define 2 "x" (.int 2)

theorem built : store.Built :=
  .define "x" _ (.child (.child (.define "x" _ .fresh (by decide)) (by decide)) (by decide))
    (by decide)

end Shadowing

open Shadowing in
theorem environment_laws_shadowing :
    store.Built ∧
    (∃ st owner, store.set? 1 "x" (.int 3) = some st ∧ store.Owns "x" 1 owner ∧
      store.Rebinds st owner "x" (.int 3)) ∧
    (Interpreter.create {} {}).machine.store.Lawful := by
  have hlawful := environment_laws.1 store built
  have hset : store.set? 1 "x" (.int 3) = some (store.define 0 "x" (.int 3)) := rfl
  obtain ⟨owner, howns, hrebinds⟩ := hlawful.set hset
  have hnew := environment_laws.2.1 {} {} _ (fun _ _ => Host.obeys_default) .new
  exact ⟨built, ⟨_, owner, hset, howns, hrebinds⟩, environment_laws.1 _ hnew.1⟩

end TraitLang
