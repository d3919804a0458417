import TraitLang.Proofs.Policies

/-!
Runs within a policy. On a machine that obeys a policy, code that obeys it makes values that obey it
and leaves a machine that obeys it, given a host that brings in nothing else. Main statement:
evaluating and applying keep to a policy. Of the scopes that were there before they leave those as
they are that a program cannot get hold of, and all of them where code may not assign.
-/
namespace TraitLang

def Registration.Obeys (P : Policy) : Registration → Prop
  | traitDefault _ _ v | instanceMethod _ _ _ v => v.Obeys P
  | bridge _ | fallback _ => True

namespace Action

/-- The results that a native function gets back from a step. -/
def ResultObeys (P : Policy) (r : Except Fault Value) : Prop := ∀ v, r = .ok v → v.Obeys P

/-- A native function that gets what obeys a policy brings in nothing else. It fills scopes and
loads programs only where code may assign, and resolves methods only where traits play a part. -/
def Obeys (P : Policy) : Action → Prop
  | done v => v.Obeys P
  | fail _ => True
  | write _ next => next.Obeys P
  | fresh next => ∀ id, (next id).Obeys P
  | depths next => ∀ calls witnesses types, (next calls witnesses types).Obeys P
  | limits next => ∀ limits, (next limits).Obeys P
  | look next => ∀ r st, r.Obeys P → st.Shows P → (next r st).Obeys P
  | newScope parent next => P.live parent ∧ ∀ scope, P.live scope → (next scope).Obeys P
  | define scope _ v next => P.assigns ∧ P.live scope ∧ v.Obeys P ∧ next.Obeys P
  | assign scope _ v next => P.assigns ∧ P.live scope ∧ v.Obeys P ∧ ∀ bound, (next bound).Obeys P
  | apply callee args _ next =>
    callee.Obeys P ∧ (∀ v ∈ args, v.Obeys P) ∧ ∀ r, ResultObeys P r → (next r).Obeys P
  | call _ args next => (∀ v ∈ args, v.Obeys P) ∧ ∀ r, ResultObeys P r → (next r).Obeys P
  | eval e next => nodeFollows P.toRules e = true ∧ ∀ r, ResultObeys P r → (next r).Obeys P
  | resolve _ args _ next =>
    P.traits ∧ (∀ v ∈ args, v.Obeys P) ∧
      ∀ r, (∀ res, r = .ok res → res.Obeys P) → (next r).Obeys P
  | load p next => P.assigns ∧ p.follows P.toRules = true ∧ ∀ r, (next r).Obeys P
  | register r next => r.Obeys P ∧ next.Obeys P

end Action

/-- What the embedding program supplies obeys a policy if what it is given does, whichever bridge
and handler are in use. -/
structure Host.Obeys (P : Policy) (host : Host) : Prop where
  native : ∀ name {args}, (∀ v ∈ args, v.Obeys P) → (host.native name args).Obeys P
  callMember : ∀ {m bridge}, host.bridgeOn m = some bridge → ∀ {type handle member args v},
    (∀ v ∈ args, v.Obeys P) → bridge.callMember type handle member args = .ok v → v.Obeys P
  readField : ∀ {m bridge}, host.bridgeOn m = some bridge → ∀ {type handle member v},
    bridge.readField type handle member = .ok v → v.Obeys P
  fallback : ∀ {m handler}, host.fallbackOn m = some handler → ∀ {callee args v}, callee.Obeys P →
    (∀ v ∈ args, v.Obeys P) → handler callee args = some (.ok v) → v.Obeys P

theorem Host.obeys_default {P : Policy} : ({} : Host).Obeys P where
  native _ _ _ := trivial
  callMember h := absurd h (by simp [bridgeOn_eq_none])
  readField h := absurd h (by simp [bridgeOn_eq_none])
  fallback h := absurd h (by simp [fallbackOn_eq_none])

/-- The builtins that every interpreter starts with make numbers, strings and truth values. -/
theorem CoreNative.obeys_action {P : Policy} (c : CoreNative) (args : List Value) :
    (c.action args).Obeys P := by
  cases c with
  | print | println => trivial
  | display => cases args <;> trivial
  | length =>
    show (lengthOf args).Obeys P
    unfold lengthOf
    split <;> trivial
  | fail => cases args <;> trivial
  | errorMessage =>
    cases args with
    | nil => trivial
    | cons v args => cases v <;> trivial
  | callDepth | witnessDepth => exact fun _ _ _ => trivial
  | eq | neq =>
    cases args with
    | nil => trivial
    | cons v args => cases args <;> trivial

/-- Without traits no method is dispatched. -/
def Event.Obeys (P : Policy) : Event → Prop
  | dispatch _ => P.traits
  | _ => True

/-- The settings differ at most in where a debugger stops runs that do not keep to the policy. -/
structure Setting.AgreesOn (P : Policy) (s t : Setting) : Prop where
  limits : t.limits = s.limits
  host : t.host = s.host
  breakpoint : ∀ {e m}, e.Obeys P → m.Obeys P → t.breakpoint e m = s.breakpoint e m

def Step.Obeys (P : Policy) : Step → Prop
  | done v => v.Obeys P
  | tail callee args _ => callee.Obeys P ∧ ∀ v ∈ args, v.Obeys P

/-- What a run may make of a machine that obeys a policy. Of the first `n` scopes those stay as they
are that code cannot get hold of, and all of them if it may not assign. -/
structure Kept (P : Policy) (n : Nat) (m m' : Machine) : Prop where
  obeys : m'.Obeys P
  size_le : m.store.scopes.size ≤ m'.store.scopes.size
  scopes : ∀ id < n, ¬ P.assigns ∨ ¬ P.live id → m'.store.scopes[id]? = m.store.scopes[id]?

namespace Kept

variable {P : Policy} {n : Nat} {m m₁ m₂ : Machine}

theorem of_store_eq (h : m₁.Obeys P) (hstore : m₁.store = m.store) : Kept P n m m₁ :=
  ⟨h, Nat.le_of_eq (by rw [hstore]), fun _ _ _ => by rw [hstore]⟩

theorem refl (h : m.Obeys P) : Kept P n m m := of_store_eq h rfl

/-- Work on the stacks, before and after, does not show. -/
theorem restore {p q : Machine} (h : Kept P n p m₁) (hp : p.store = m.store) (hq : q.Obeys P)
    (hstore : q.store = m₁.store) : Kept P n m q := by
  refine ⟨hq, ?_, fun id hid hsafe => ?_⟩
  · rw [hstore, ← hp]
    exact h.size_le
  · rw [hstore, ← hp]
    exact h.scopes id hid hsafe

theorem trans (h₁ : Kept P n m m₁) (h₂ : Kept P n m₁ m₂) : Kept P n m m₂ :=
  ⟨h₂.obeys, Nat.le_trans h₁.size_le h₂.size_le, fun id hid hsafe =>
    (h₂.scopes id hid hsafe).trans (h₁.scopes id hid hsafe)⟩

end Kept

namespace Run

variable {α β : Type} {P : Policy} {k : ScopeId} {A : α → Prop} {A' : β → Prop}

/-- A computation keeps to a policy, and its values satisfy `A`. Among the scopes that are there
when it starts, it defines names in those from `k` on only. -/
structure Keeps (P : Policy) (k : ScopeId) (A : α → Prop) (x : Run α) : Prop where
  ends : ∀ s m n, n ≤ k → n ≤ m.store.scopes.size → s.host.Obeys P → m.Obeys P →
    (x s m).Ends (fun a m' => A a ∧ Kept P n m m') (Kept P n m) fun m' => m'.Obeys P
  /-- it gets nowhere that the policy rules out -/
  agrees : ∀ {s t m}, s.AgreesOn P t → s.host.Obeys P → m.Obeys P → x t m = x s m

namespace Keeps

theorem imp {x : Run α} {B : α → Prop} (hx : x.Keeps P k A) (hAB : ∀ a, A a → B a) :
    x.Keeps P k B where
  ends s m n hn hm hs h := Outcome.Ends.imp (hx.ends s m n hn hm hs h)
    (fun a _ ha => ⟨hAB a ha.1, ha.2⟩) (fun _ => id) fun _ => id
  agrees := hx.agrees

/-- What a computation does may be worked out on the machine that it starts on. -/
theorem of_machine {x : Run α} (hx : ∀ m : Machine, m.Obeys P → x.Keeps P k A) : x.Keeps P k A where
  ends s m n hn hm hs h := (hx m h).ends s m n hn hm hs h
  agrees hst hs h := (hx _ h).agrees hst hs h

theorem pure {a : α} (ha : A a) : (pure a : Run α).Keeps P k A :=
  ⟨fun _ _ _ _ _ _ h => ⟨ha, .refl h⟩, fun _ _ _ => rfl⟩

theorem throw (f : Fault) : (throw f : Run α).Keeps P k A :=
  ⟨fun _ _ _ _ _ _ h => .refl h, fun _ _ _ => rfl⟩

theorem fail (cause : Cause) : (fail cause : Run α).Keeps P k A := throw _

theorem bridge : Run.bridge.Keeps P k fun o => ∀ bridge, o = some bridge →
    (∀ {type handle member args v}, (∀ v ∈ args, v.Obeys P) →
      bridge.callMember type handle member args = .ok v → v.Obeys P) ∧
    ∀ {type handle member v}, bridge.readField type handle member = .ok v → v.Obeys P where
  ends _ _ _ _ _ hs h :=
    ⟨fun _ hbridge => ⟨hs.callMember hbridge, hs.readField hbridge⟩, .refl h⟩
  agrees hst _ _ := by rw [Run.bridge, hst.host]; rfl

theorem machine : Run.machine.Keeps P k fun m => m.Obeys P :=
  ⟨fun _ _ _ _ _ _ h => ⟨h, .refl h⟩, fun _ _ _ => rfl⟩

theorem outOfFuel : (outOfFuel : Run α).Keeps P k A :=
  ⟨fun _ _ _ _ _ _ _ => trivial, fun _ _ _ => rfl⟩

/-- A change that leaves the store alone. -/
theorem modify {f : Machine → Machine} (hf : ∀ m, m.Obeys P → (f m).Obeys P)
    (hstore : ∀ m, (f m).store = m.store) : (modify f).Keeps P k fun _ => True :=
  ⟨fun _ m _ _ _ _ h => ⟨trivial, .of_store_eq (hf m h) (hstore m)⟩, fun _ _ _ => rfl⟩

theorem fresh : fresh.Keeps P k fun _ => True :=
  ⟨fun _ _ _ _ _ _ h => ⟨trivial, .of_store_eq (h.congr rfl rfl rfl) rfl⟩, fun _ _ _ => rfl⟩

theorem lookup {scope : ScopeId} (hscope : P.live scope) (name : String) :
    (lookup scope name).Keeps P k (Value.Obeys P) := by
  refine ⟨fun s m n _ _ _ h => ?_, fun _ _ _ => rfl⟩
  unfold Run.lookup
  split
  · exact ⟨h.store.get? hscope ‹_›, .refl h⟩
  · exact .refl h

theorem assign (hassigns : P.assigns) {scope : ScopeId} (hscope : P.live scope) (name : String)
    {v : Value} (hv : v.Obeys P) : (assign scope name v).Keeps P k fun _ => True := by
  refine ⟨fun s m n _ _ _ h => ?_, fun _ _ _ => rfl⟩
  cases howner : m.store.owner? scope name with
  | some owner =>
    rw [assign_of_owner howner]
    refine ⟨trivial, ⟨h.global, h.store.define hv, h.registry, h.witnesses⟩, by simp [Store.define],
      fun id _ hsafe => Store.getElem?_define_of_ne ?_ name v⟩
    -- the scope that changes is one that the program can get hold of
    rintro rfl
    exact hsafe.elim (· hassigns) (· (h.store.live_ownerFrom hscope howner))
  | none =>
    rw [assign_of_no_owner howner]
    exact .refl h

theorem define (name : String) {v : Value} (hv : v.Obeys P) :
    (define k name v).Keeps P k fun _ => True := by
  refine ⟨fun s m n hn _ _ h => ?_, fun _ _ _ => rfl⟩
  refine ⟨trivial, ⟨h.global, h.store.define hv, h.registry, h.witnesses⟩, ?_, fun id hid _ => ?_⟩
  · simp [Store.define]
  · exact Store.getElem?_define_of_ne (Nat.ne_of_gt (Nat.lt_of_lt_of_le hid hn)) name v

/-- Where code may assign, a native function can define names as well. -/
theorem defineLive (hassigns : P.assigns) {scope : ScopeId} (hscope : P.live scope)
    (name : String) {v : Value} (hv : v.Obeys P) :
    (Run.define scope name v).Keeps P k fun _ => True := by
  refine ⟨fun s m n _ _ _ h => ?_, fun _ _ _ => rfl⟩
  refine ⟨trivial, ⟨h.global, h.store.define hv, h.registry, h.witnesses⟩, by simp [Store.define],
    fun id _ hsafe => Store.getElem?_define_of_ne ?_ name v⟩
  rintro rfl
  exact hsafe.elim (· hassigns) (· hscope)

theorem reach {e : Event} (he : e.Obeys P) : (reach e).Keeps P k fun _ => True := by
  refine ⟨fun s m n _ _ _ h => ?_, fun hst _ h => ?_⟩
  · unfold Run.reach
    split
    · exact h
    · exact ⟨trivial, .refl h⟩
  · unfold Run.reach
    rw [hst.breakpoint he h]

theorem require (cause : Cause) {o : Option α} (ho : ∀ a, o = some a → A a) :
    (require cause o).Keeps P k A := by
  cases o with
  | some a => exact pure (ho a rfl)
  | none => exact fail cause

theorem ofExcept {r : Except Fault α} (hr : ∀ a, r = .ok a → A a) :
    (ofExcept r).Keeps P k A := by
  cases r with
  | ok a => exact pure (hr a rfl)
  | error f => exact throw f

theorem ofCause {r : Except Cause α} (hr : ∀ a, r = .ok a → A a) : (ofCause r).Keeps P k A := by
  cases r with
  | ok a => exact pure (hr a rfl)
  | error cause => exact fail cause

theorem bind {x : Run α} {f : α → Run β} (hx : x.Keeps P k A)
    (hf : ∀ a, A a → (f a).Keeps P k A') : (x >>= f).Keeps P k A' := by
  refine ⟨fun s m n hn hm hs h => ?_, fun {s t m} hst hs h => ?_⟩
  · refine Ends.bind (hx.ends s m n hn hm hs h) (fun a m₁ ⟨ha, h₁⟩ => ?_) fun _ => id
    exact Outcome.Ends.imp ((hf a ha).ends s m₁ n hn (Nat.le_trans hm h₁.size_le) hs h₁.obeys)
      (fun _ _ h₂ => ⟨h₂.1, h₁.trans h₂.2⟩) (fun _ => h₁.trans) fun _ => id
  · have hends := hx.ends s m 0 (Nat.zero_le _) (Nat.zero_le _) hs h
    have hsame := hx.agrees hst hs h
    cases hxm : x s m with
    | done a m₁ =>
      rw [hxm] at hends hsame
      rw [bind_of_done hxm, bind_of_done hsame]
      exact (hf a hends.1).agrees hst hs hends.2.obeys
    | failed e m₁ => rw [bind_of_failed hxm, bind_of_failed (hsame.trans hxm)]
    | halted why => rw [bind_of_halted hxm, bind_of_halted (hsame.trans hxm)]

/-- Code may look at the limits and the host, not at the debugger. -/
theorem setting {f : Setting → Run β} (hf : ∀ s, s.host.Obeys P → (f s).Keeps P k A')
    (hsame : ∀ s t : Setting, t.limits = s.limits → t.host = s.host → f t = f s) :
    (Run.setting >>= f).Keeps P k A' := by
  refine ⟨fun s m n hn hm hs h => ?_, fun {s t m} hst hs h => ?_⟩
  · rw [setting_bind]
    exact (hf s hs).ends s m n hn hm hs h
  · rw [setting_bind, setting_bind, hsame s t hst.limits hst.host]
    exact (hf s hs).agrees hst hs h

theorem mapFault {x : Run α} (g : Fault → Fault) (hx : x.Keeps P k A) :
    (mapFault g x).Keeps P k A :=
  ⟨fun s m n hn hm hs h => Ends.mapFault g (hx.ends s m n hn hm hs h),
    fun hst hs h => by unfold Run.mapFault; rw [hx.agrees hst hs h]⟩

theorem attempt {x : Run α} (hx : x.Keeps P k A) :
    (attempt x).Keeps P k fun r => ∀ a, r = .ok a → A a := by
  refine ⟨fun s m n hn hm hs h => ?_, fun {s t m} hst hs h => ?_⟩
  · have hends := hx.ends s m n hn hm hs h
    unfold Run.attempt
    cases hxm : x s m with
    | done a m₁ =>
      rw [hxm] at hends
      exact ⟨fun b hb => Except.ok.inj hb ▸ hends.1, hends.2⟩
    | failed e m₁ =>
      rw [hxm] at hends
      exact ⟨fun _ hb => absurd hb (by simp), hends⟩
    | halted why => rw [hxm] at hends; cases why <;> exact hends
  · unfold Run.attempt
    rw [hx.agrees hst hs h]

/-- Work on the stacks, before and after, does not show. -/
theorem ensuring {x : Run α} {prepare : Machine → Machine} {tidy : Machine → Machine → Machine}
    (hx : x.Keeps P k A) (hprepare : ∀ m, m.Obeys P → (prepare m).Obeys P)
    (hprepared : ∀ m, (prepare m).store = m.store)
    (htidy : ∀ m m', m'.Obeys P → (tidy m m').Obeys P)
    (htidied : ∀ m m', (tidy m m').store = m'.store) :
    Keeps P k A fun s m => ensuring (tidy m) x s (prepare m) := by
  refine ⟨fun s m n hn hm hs h => ?_, fun {s t m} hst hs h => ?_⟩
  · have back (m' : Machine) (hk : Kept P n (prepare m) m') : Kept P n m (tidy m m') :=
      hk.restore (hprepared m) (htidy m m' hk.obeys) (htidied m m')
    exact Ends.ensuring (hx.ends s (prepare m) n hn (hprepared m ▸ hm) hs (hprepare m h))
      (fun _ m' h' => ⟨h'.1, back m' h'.2⟩) back
  · unfold Run.ensuring
    rw [hx.agrees hst hs (hprepare m h)]

theorem withExpected {x : Run α} (t : Ty) (hx : x.Keeps P k A) :
    (withExpected t x).Keeps P k A :=
  ensuring hx (fun _ h => h.congr rfl rfl rfl) (fun _ => rfl) (fun _ _ h => h.congr rfl rfl rfl)
    fun _ _ => rfl

theorem withContainer {x : Run α} (name : String) (hx : x.Keeps P k A) :
    (withContainer name x).Keeps P k A :=
  ensuring hx (fun _ h => h.congr rfl rfl rfl) (fun _ => rfl) (fun _ _ h => h.congr rfl rfl rfl)
    fun _ _ => rfl

/-- A new scope may be filled by whoever made it. -/
theorem newScope {f : ScopeId → Run β} {parent : ScopeId} (hparent : P.live parent)
    (hf : ∀ id, P.live id → (f id).Keeps P id A') : (newScope parent >>= f).Keeps P k A' := by
  have hstep {n : Nat} {m : Machine} (hm : n ≤ m.store.scopes.size) (h : m.Obeys P) :
      Kept P n m { m with store := (m.store.child parent).1 } := by
    refine ⟨⟨h.global, h.store.child hparent, h.registry, h.witnesses⟩, by simp [Store.child],
      fun id hid _ => ?_⟩
    exact Store.getElem?_child_of_lt parent (Nat.lt_of_lt_of_le hid hm)
  -- the number of the new scope is one of those yet to come
  have hlive {m : Machine} (h : m.Obeys P) : P.live m.store.scopes.size :=
    h.store.fresh (Nat.le_refl _)
  refine ⟨fun s m n hn hm hs h => ?_, fun {s t m} hst hs h => ?_⟩
  · have h₁ := hstep hm h
    exact Outcome.Ends.imp
      ((hf _ (hlive h)).ends s _ n hm (Nat.le_trans hm h₁.size_le) hs h₁.obeys)
      (fun _ _ h₂ => ⟨h₂.1, h₁.trans h₂.2⟩) (fun _ => h₁.trans) fun _ => id
  · exact (hf _ (hlive h)).agrees hst hs (hstep (Nat.zero_le _) h).obeys

theorem defineAll {bindings : List (String × Value)} (h : ∀ b ∈ bindings, b.2.Obeys P) :
    (defineAll k bindings).Keeps P k fun _ => True := by
  induction bindings with
  | nil => exact pure trivial
  | cons b rest ih =>
    obtain ⟨hb, hrest⟩ := List.forall_mem_cons.1 h
    exact bind (define b.1 hb) fun _ _ => ih hrest

theorem matchInto (p : Pattern) {v : Value} (hv : v.Obeys P) :
    (p.matchInto k v).Keeps P k fun _ => True := by
  rw [Pattern.matchInto_eq]
  exact bind (defineAll (p.obeys_of_mem_written v hv)) fun _ _ => pure trivial

/-- An application that keeps to a policy, given a callable and arguments that obey it. -/
def Always (P : Policy) (a : Apply) : Prop :=
  ∀ {callee args}, callee.Obeys P → (∀ v ∈ args, v.Obeys P) → ∀ site k,
    (a callee args site).Keeps P k (Value.Obeys P)

variable {a : Apply}

theorem settled {x : Run Step} (ha : Always P a) (hx : x.Keeps P k (Step.Obeys P)) :
    (settled a x).Keeps P k (Value.Obeys P) := by
  refine bind hx fun step hstep => ?_
  cases step with
  | done v => exact pure hstep
  | tail callee args site => exact ha hstep.1 hstep.2 site k

theorem finishCall (ha : Always P a) (ctx : EvalCtx) {callee : Value} {args : List Value}
    (hcallee : callee.Obeys P) (hargs : ∀ v ∈ args, v.Obeys P) (site : CallSite) :
    (finishCall a ctx callee args site).Keeps P k (Step.Obeys P) := by
  unfold Run.finishCall
  split
  · exact pure ⟨hcallee, hargs⟩
  · exact bind (ha hcallee hargs site k) fun v hv => pure hv

theorem callMember (ha : Always P a) (ctx : EvalCtx) {scope : ScopeId} (hscope : P.live scope)
    {recv : Value} (hrecv : recv.Obeys P) (method : String) {args : List Value}
    (hargs : ∀ v ∈ args, v.Obeys P) (site : CallSite) :
    (callMember a ctx scope recv method args site).Keeps P k (Step.Obeys P) := by
  have member : (do
      let fn ← Run.lookup scope method
      Run.finishCall a ctx (.bound (← Run.machine).nextIdent fn recv) args site).Keeps P k
        (Step.Obeys P) :=
    bind (lookup hscope method) fun fn hfn => bind machine fun m _ =>
      finishCall ha ctx (by simpa using ⟨hfn, hrecv⟩) hargs site
  unfold Run.callMember
  split
  · refine bind bridge fun o ho => ?_
    cases o with
    | none => exact fail _
    | some b => exact bind (ofExcept fun v hv => (ho b rfl).1 hargs hv) fun v hv => pure hv
  · split
    · exact finishCall ha ctx (Value.obeys_of_member? hrecv ‹_›) hargs site
    · exact member

theorem readField {v : Value} (hv : v.Obeys P) (field : String) :
    (readField v field).Keeps P k (Value.Obeys P) := by
  unfold Run.readField
  split
  · refine bind bridge fun o ho => ?_
    cases o with
    | none => exact fail _
    | some b => exact ofExcept fun w hw => (ho b rfl).2 hw
  · exact ofCause fun w hw => Value.obeys_of_field hv hw

theorem asBool (v : Value) : v.asBool.Keeps P k fun _ => True := by
  unfold Value.asBool
  split
  · exact pure trivial
  · exact fail _

theorem buildDictionary (traitName : String) (key : TypeKey) :
    (buildDictionary traitName key).Keeps P k fun d => (Value.dictionary d).Obeys P := by
  refine ⟨fun s m n _ _ _ h => ?_, fun _ _ _ => rfl⟩
  unfold Run.buildDictionary
  split
  · exact ⟨fun htraits => h.registry.dictionary? htraits h.global ‹_›,
      .of_store_eq (h.congr rfl rfl rfl) rfl⟩
  · exact .refl h

theorem bindSource (ha : Always P a) {scope : ScopeId} (hscope : P.live scope) {source : Value}
    (hsource : source.Obeys P) (name : String) {rest : List DoBind} {body : Spanned Expr}
    (hrest : bindsFollow P.toRules rest = true) (hbody : nodeFollows P.toRules body = true)
    (span : Span) :
    (bindSource a scope source name rest body span).Keeps P k (Value.Obeys P) := by
  refine withContainer _ (bind (lookup hscope _) fun bindFn hbind => bind fresh fun id _ => ?_)
  refine ha hbind (fun v hv => ?_) _ _
  rcases List.mem_cons.1 hv with rfl | hv
  · exact hsource
  · rw [List.mem_singleton.1 hv]
    simp [Builtin.obeys_iff, hscope, hrest, hbody]

mutual

theorem node (ha : Always P a) (ctx : EvalCtx) {scope : ScopeId} (hscope : P.live scope) :
    ∀ (e : Spanned Expr) (k : ScopeId), nodeFollows P.toRules e = true →
      (evalNode a ctx scope e).Keeps P k (Step.Obeys P)
  | ⟨e, span⟩, k, he => by
    rw [evalNode]
    exact mapFault _ (form ha ctx hscope span e k he)

theorem form (ha : Always P a) (ctx : EvalCtx) {scope : ScopeId} (hscope : P.live scope)
    (span : Span) : ∀ (e : Expr) (k : ScopeId), e.follows P.toRules = true →
      (evalForm a ctx scope span e).Keeps P k (Step.Obeys P)
  | .lit l, k, _ => by rw [evalForm]; exact pure (Value.obeys_ofLiteral l)
  | .var name, k, _ => by
    rw [evalForm]
    exact bind (lookup hscope name) fun v hv => pure hv
  | .list items, k, he | .tuple items, k, he => by
    rw [evalForm]
    exact bind (all ha hscope items k he) fun vs hvs => pure ((allObey_iff vs).2 hvs)
  | .record entries, k, he => by
    rw [evalForm]
    refine bind (fields ha hscope entries [] k he fun _ hb => absurd hb List.not_mem_nil)
      fun fs hfs => pure ((fieldsObey_iff fs).2 hfs)
  | .range start stop, k, he => by
    rw [evalForm]
    simp only [Expr.follows, Bool.and_eq_true] at he
    refine bind (settled ha (node ha {} hscope start k he.1)) fun first _ => ?_
    refine bind (settled ha (node ha {} hscope stop k he.2)) fun last _ => ?_
    exact bind (ofCause fun v hv => Value.obeys_of_upTo hv) fun v hv => pure hv
  | .lambda f, k, he => by
    rw [evalForm]
    refine bind machine fun m hm => bind fresh fun id _ => pure ?_
    exact ⟨he, hscope, fun f hf => WitnessStack.obeys_merged hm.witnesses hf⟩
  | .call id callee args, k, he => by
    rw [evalForm]
    simp only [Expr.follows, Bool.and_eq_true] at he
    refine bind (settled ha (node ha {} hscope callee k he.1)) fun fn hfn => ?_
    exact bind (all ha hscope args k he.2) fun vals hvals => finishCall ha ctx hfn hvals _
  | .methodCall id receiver method args, k, he => by
    rw [evalForm]
    simp only [Expr.follows, Bool.and_eq_true] at he
    refine bind (settled ha (node ha {} hscope receiver k he.1)) fun recv hrecv => ?_
    exact bind (all ha hscope args k he.2) fun vals hvals =>
      callMember ha ctx hscope hrecv _ hvals _
  | .field target name, k, he => by
    rw [evalForm]
    refine bind (settled ha (node ha {} hscope target k he)) fun v hv => ?_
    exact bind (readField hv name) fun w hw => pure hw
  | .binary left op right, k, he => by
    rw [evalForm]
    simp only [Expr.follows, Bool.and_eq_true] at he
    refine bind (settled ha (node ha {} hscope left k he.1)) fun l hl => ?_
    have hright := settled ha (node ha {} hscope right k he.2)
    split
    · refine bind (asBool l) fun b _ => ?_
      split
      · exact bind hright fun r _ => bind (asBool r) fun b' _ => pure trivial
      · exact pure trivial
    · exact bind hright fun r hr =>
        bind (ofCause fun v hv => BinOp.obeys_of_eval hl hr hv) fun v hv => pure hv
  | .unary op operand, k, he => by
    rw [evalForm]
    refine bind (settled ha (node ha {} hscope operand k he)) fun v _ => ?_
    exact bind (ofCause fun w hw => UnOp.obeys_of_eval hw) fun w hw => pure hw
  | .operator op, k, _ => by rw [evalForm]; exact pure trivial
  | .compose outer inner, k, he => by
    rw [evalForm]
    simp only [Expr.follows, Bool.and_eq_true] at he
    refine bind (settled ha (node ha {} hscope outer k he.1)) fun f hf => ?_
    refine bind (settled ha (node ha {} hscope inner k he.2)) fun g hg => ?_
    exact bind fresh fun id _ => pure ⟨hf, hg⟩
  | .cond test yes no, k, he => by
    rw [evalForm]
    simp only [Expr.follows, Bool.and_eq_true] at he
    refine bind (settled ha (node ha {} hscope test k he.1.1)) fun v _ => ?_
    refine bind (asBool v) fun b _ => ?_
    split
    · exact node ha ctx hscope yes k he.1.2
    · exact node ha ctx hscope no k he.2
  | .letIn name ty value body, k, he => by
    rw [evalForm]
    simp only [Expr.follows, Bool.and_eq_true] at he
    refine bind (settled ha (node ha _ hscope value k he.1)) fun v hv => ?_
    refine newScope hscope fun inner hinner => ?_
    exact bind (define name hv) fun _ _ => node ha ctx hinner body inner he.2
  | .block [], k, _ => by rw [evalForm]; exact pure trivial
  | .block (e :: es), k, he => by
    rw [evalForm]
    exact newScope hscope fun inner hinner => seq ha ctx hinner (e :: es) inner he
  | .assign name value, k, he => by
    rw [evalForm]
    simp only [Expr.follows, Bool.and_eq_true] at he
    refine bind (settled ha (node ha {} hscope value k he.2)) fun v hv => ?_
    exact bind (assign he.1 hscope name hv) fun _ _ => pure trivial
  | .annotated e ty, k, he => by
    rw [evalForm]
    refine bind machine fun m _ => ?_
    exact bind (withExpected _ (settled ha (node ha _ hscope e k he))) fun v hv => pure hv
  | .choose scrutinee branches, k, he => by
    rw [evalForm]
    simp only [Expr.follows, Bool.and_eq_true] at he
    refine bind (settled ha (node ha {} hscope scrutinee k he.1)) fun v hv => ?_
    exact arms ha ctx hscope hv branches k he.2
  | .dict traitName types, k, _ => by
    unfold evalForm
    split
    · exact bind fresh fun id _ => pure fun _ => Dictionary.obeys_placeholder id traitName
    · exact bind (buildDictionary traitName _) fun d hd => pure hd
  | .doChain [] body, k, he => by
    rw [evalForm]
    simp only [Expr.follows, Bool.and_eq_true] at he
    exact bind (settled ha (node ha {} hscope body k he.2)) fun v hv => pure hv
  | .doChain (⟨name, value⟩ :: rest) body, k, he => by
    rw [evalForm]
    simp only [Expr.follows, bindsFollow, Bool.and_eq_true] at he
    refine bind (settled ha (node ha {} hscope value k he.1.1)) fun source hsource => ?_
    exact bind (bindSource ha hscope hsource name he.1.2 he.2 _) fun v hv => pure hv
  | .attempt body, k, he => by
    rw [evalForm]
    refine bind (attempt (settled ha (node ha {} hscope body k he))) fun r hr => ?_
    cases r with
    | ok v => exact pure (hr v rfl)
    | error f => exact bind fresh fun id _ => pure trivial

theorem all (ha : Always P a) {scope : ScopeId} (hscope : P.live scope) :
    ∀ (es : List (Spanned Expr)) (k : ScopeId), allFollow P.toRules es = true →
      (evalAll a scope es).Keeps P k fun vs => ∀ v ∈ vs, v.Obeys P
  | [], k, _ => by rw [evalAll]; exact pure fun _ hv => absurd hv List.not_mem_nil
  | e :: es, k, he => by
    rw [evalAll]
    simp only [allFollow, Bool.and_eq_true] at he
    refine bind (settled ha (node ha {} hscope e k he.1)) fun v hv => ?_
    exact bind (all ha hscope es k he.2) fun vs hvs => pure (List.forall_mem_cons.2 ⟨hv, hvs⟩)

theorem fields (ha : Always P a) {scope : ScopeId} (hscope : P.live scope) :
    ∀ (es : List (String × Spanned Expr)) (done : List (String × Value)) (k : ScopeId),
      fieldsFollow P.toRules es = true → (∀ b ∈ done, b.2.Obeys P) →
      (evalFields a scope done es).Keeps P k fun fs => ∀ b ∈ fs, b.2.Obeys P
  | [], done, k, _, hdone => by rw [evalFields]; exact pure hdone
  | (name, e) :: es, done, k, he, hdone => by
    rw [evalFields]
    simp only [fieldsFollow, Bool.and_eq_true] at he
    refine bind (settled ha (node ha {} hscope e k he.1)) fun v hv => ?_
    refine fields ha hscope es _ k he.2 fun b hb => ?_
    rcases Assoc.of_mem_insert hb with heq | hb
    · exact heq ▸ hv
    · exact hdone b hb

theorem seq (ha : Always P a) (ctx : EvalCtx) {scope : ScopeId} (hscope : P.live scope) :
    ∀ (es : List (Spanned Expr)) (k : ScopeId), allFollow P.toRules es = true →
      (evalSeq a ctx scope es).Keeps P k (Step.Obeys P)
  | [], k, _ => by rw [evalSeq]; exact pure trivial
  | [e], k, he => by
    rw [evalSeq]
    simp only [allFollow, Bool.and_eq_true] at he
    exact node ha ctx hscope e k he.1
  | e :: e' :: es, k, he => by
    rw [evalSeq]
    rw [allFollow, Bool.and_eq_true] at he
    refine bind (bind (settled ha (node ha {} hscope e k he.1)) fun v _ => pure trivial)
      fun _ (_ : True) => ?_
    exact seq ha ctx hscope (e' :: es) k he.2

theorem arms (ha : Always P a) (ctx : EvalCtx) {scope : ScopeId} (hscope : P.live scope)
    {v : Value} (hv : v.Obeys P) : ∀ (as : List Arm) (k : ScopeId), armsFollow P.toRules as = true →
      (evalArms a ctx scope v as).Keeps P k (Step.Obeys P)
  | [], k, _ => by rw [evalArms]; exact fail _
  | ⟨pattern, body⟩ :: as, k, he => by
    rw [evalArms]
    simp only [armsFollow, Bool.and_eq_true] at he
    refine newScope hscope fun inner hinner => bind (matchInto pattern.node hv) fun matched _ => ?_
    split
    · exact node ha ctx hinner body inner he.1
    · exact arms ha ctx hscope hv as inner he.2

end

end Keeps

end Run

end TraitLang
