import TraitLang.Proofs.KeptCalls
import TraitLang.Proofs.ScopeChains

/-!
Scopes that exist. On a machine whose closures refer to scopes that are there, code makes scopes
below such scopes only. Which scopes may be referred to changes as the store grows, while a policy
keeps to the same ones throughout; so what is known of values is stated for a number of scopes and
carries over to every larger one. Main statement: evaluating an expression in a scope that exists
keeps to scopes that exist.
-/
namespace TraitLang

/-! ### Policies that permit more -/

/-- Under `Q` all scopes and all evidence are permitted that are under `P`. -/
structure Policy.Permits (P Q : Policy) : Prop where
  rules : Q.toRules = P.toRules
  live : ∀ {id}, P.live id → Q.live id
  evidence : ∀ {ty}, P.evidence ty → Q.evidence ty

section Permits

variable {P Q : Policy}

theorem Closure.Obeys.imp {c : Closure} (h : c.Obeys P) (hPQ : P.Permits Q) : c.Obeys Q where
  code := hPQ.rules ▸ h.code
  live := hPQ.live h.live
  captured f hf :=
    ⟨hPQ.rules ▸ (h.captured f hf).traits,
      fun e he => hPQ.evidence ((h.captured f hf).evidence e he)⟩

theorem Native.Obeys.imp {native : Native} (h : native.Obeys P) (hPQ : P.Permits Q) :
    native.Obeys Q := by
  cases native with
  | core _ | host _ => trivial
  | resume name rest body scope => exact ⟨hPQ.live h.1, hPQ.rules ▸ h.2.1, hPQ.rules ▸ h.2.2⟩

mutual

theorem Value.Obeys.imp (hPQ : P.Permits Q) : ∀ v : Value, v.Obeys P → v.Obeys Q
  | .unit | .int _ | .float _ | .bool _ | .char _ | .str _ | .range _ _ | .error _ _ | .typeRep _
  | .host _ _ | .constructor _ _ _ _ | .operator _ => fun _ => trivial
  | .method _ _ => fun h => show Q.traits = true from hPQ.rules ▸ h
  | .list items | .tuple items | .data _ _ items => allObey_imp hPQ items
  | .record fields => fieldsObey_imp hPQ fields
  | .function _ _ => fun h => Closure.Obeys.imp h hPQ
  | .builtin ⟨_, _, _, _, defaults⟩ => fun h =>
    ⟨Native.Obeys.imp h.1 hPQ, allObey_imp hPQ defaults h.2⟩
  | .partialApp _ callee args _ => fun h =>
    ⟨Value.Obeys.imp hPQ callee h.1, allObey_imp hPQ args h.2⟩
  | .dictionary d => fun h htraits => Dictionary.Obeys.imp hPQ d (h (hPQ.rules ▸ htraits))
  | .bound _ v w | .composed _ v w => fun h =>
    ⟨Value.Obeys.imp hPQ v h.1, Value.Obeys.imp hPQ w h.2⟩

theorem Dictionary.Obeys.imp (hPQ : P.Permits Q) : ∀ d : Dictionary, d.Obeys P → d.Obeys Q
  | ⟨_, _, _, methods, supers⟩ => fun h =>
    ⟨allObey_imp hPQ methods h.1, dictionariesObey_imp hPQ supers h.2⟩

theorem allObey_imp (hPQ : P.Permits Q) : ∀ vs : List Value, allObey P vs → allObey Q vs
  | [] => fun _ => trivial
  | v :: vs => fun h => ⟨Value.Obeys.imp hPQ v h.1, allObey_imp hPQ vs h.2⟩

theorem fieldsObey_imp (hPQ : P.Permits Q) :
    ∀ fields : List (String × Value), fieldsObey P fields → fieldsObey Q fields
  | [] => fun _ => trivial
  | (_, v) :: fields => fun h => ⟨Value.Obeys.imp hPQ v h.1, fieldsObey_imp hPQ fields h.2⟩

theorem dictionariesObey_imp (hPQ : P.Permits Q) :
    ∀ ds : List Dictionary, dictionariesObey P ds → dictionariesObey Q ds
  | [] => fun _ => trivial
  | d :: ds => fun h => ⟨Dictionary.Obeys.imp hPQ d h.1, dictionariesObey_imp hPQ ds h.2⟩

end

theorem Registry.Obeys.imp {r : Registry} (h : r.Obeys P) (hPQ : P.Permits Q) : r.Obeys Q :=
  ⟨fun hv => (h.method hv).imp hPQ _, fun hf => hPQ.rules ▸ h.userDefault hf,
    fun hv => (h.builtinDefault hv).imp hPQ _⟩

end Permits

/-! ### More scopes -/

/-- The first `n` scopes may be referred to. -/
def Policy.below (n : Nat) : Policy where
  toRules := .lax
  live id := id < n
  evidence _ := True
  evidence_of_known _ _ _ := trivial

section Mono

variable {n k : Nat}

theorem Policy.below_permits (hk : n ≤ k) : (Policy.below n).Permits (.below k) :=
  ⟨rfl, fun hid => Nat.lt_of_lt_of_le hid hk, id⟩

theorem WitnessFrame.obeys_below (f : WitnessFrame) : f.Obeys (.below n) :=
  ⟨rfl, fun _ _ => trivial⟩

theorem Closure.Obeys.mono {c : Closure} (h : c.Obeys (.below n)) (hk : n ≤ k) :
    c.Obeys (.below k) :=
  h.imp (Policy.below_permits hk)

theorem Native.Obeys.mono {native : Native} (h : native.Obeys (.below n)) (hk : n ≤ k) :
    native.Obeys (.below k) :=
  h.imp (Policy.below_permits hk)

theorem Value.Obeys.mono (hk : n ≤ k) (v : Value) (h : v.Obeys (.below n)) : v.Obeys (.below k) :=
  Value.Obeys.imp (Policy.below_permits hk) v h

theorem obey_mono {vs : List Value} (h : ∀ v ∈ vs, v.Obeys (.below n)) (hk : n ≤ k) :
    ∀ v ∈ vs, v.Obeys (.below k) :=
  fun v hv => (h v hv).mono hk v

theorem Registry.Obeys.mono {r : Registry} (h : r.Obeys (.below n)) (hk : n ≤ k) :
    r.Obeys (.below k) :=
  h.imp (Policy.below_permits hk)

end Mono

/-! ### Machines -/

/-- Every value on the machine refers to scopes that are there. -/
structure Machine.Scoped (m : Machine) : Prop where
  built : m.store.Built
  value : ∀ {id name v}, m.store.binding? id name = some v →
    v.Obeys (.below m.store.scopes.size)
  registry : m.registry.Obeys (.below m.store.scopes.size)

/-- The machine got more scopes, or as many as before. -/
structure Machine.Extends (m m' : Machine) : Prop where
  size_le : m.store.scopes.size ≤ m'.store.scopes.size
  after : m'.Scoped

namespace Machine

variable {m m₁ m₂ : Machine}

theorem Scoped.global (h : m.Scoped) : Store.global < m.store.scopes.size := h.built.size_pos

/-- Stacks, output and identities do not count. -/
theorem Scoped.congr (h : m.Scoped) (hstore : m₁.store = m.store)
    (hregistry : m₁.registry = m.registry) : m₁.Scoped := by
  refine ⟨hstore ▸ h.built, fun {id name v} hv => ?_, ?_⟩
  · rw [hstore] at hv ⊢
    exact h.value hv
  · rw [hstore, hregistry]
    exact h.registry

theorem Scoped.get? (h : m.Scoped) {id : ScopeId} {name : String} {v : Value}
    (hv : m.store.get? id name = some v) : v.Obeys (.below m.store.scopes.size) := by
  rw [Store.get?_eq_owner?] at hv
  obtain ⟨owner, -, hbinding⟩ := Option.bind_eq_some_iff.1 hv
  exact h.value hbinding

theorem Scoped.shows (h : m.Scoped) {k : Nat} (hk : m.store.scopes.size ≤ k) :
    m.store.Shows (.below k) where
  parent {id scope p} _ hscope hparent := by
    have hid : id < m.store.scopes.size := (Array.getElem?_eq_some_iff.1 hscope).1
    have hp : m.store.parent? id = some p := by simp [Store.parent?, hscope, hparent]
    exact Nat.lt_of_lt_of_le (Nat.lt_trans (h.built.layered _ _ hp) hid) hk
  value {id scope name v} _ hscope hv := by
    have hbinding : m.store.binding? id name = some v := by simp [Store.binding?, hscope, hv]
    exact (h.value hbinding).mono hk v

theorem Scoped.child (h : m.Scoped) {parent : ScopeId} (hparent : parent < m.store.scopes.size) :
    ({ m with store := (m.store.child parent).1 } : Machine).Scoped := by
  have hle : m.store.scopes.size ≤ (m.store.child parent).1.scopes.size := by simp
  refine ⟨h.built.child hparent, fun {id name v} hv => ?_, h.registry.mono hle⟩
  exact (h.value (m.store.binding?_child parent id name ▸ hv)).mono hle v

theorem Scoped.define (h : m.Scoped) {id : ScopeId} (hid : id < m.store.scopes.size)
    (name : String) {v : Value} (hv : v.Obeys (.below m.store.scopes.size)) :
    ({ m with store := m.store.define id name v } : Machine).Scoped := by
  refine ⟨h.built.define name v hid, fun {id' y w} hw => ?_, ?_⟩
  · rw [Store.binding?_define hid] at hw
    rw [Store.size_define]
    split at hw
    · exact Option.some.inj hw ▸ hv
    · exact h.value hw
  · rw [Store.size_define]
    exact h.registry

theorem Extends.refl (h : m.Scoped) : m.Extends m := ⟨Nat.le_refl _, h⟩

theorem Extends.of_store_eq (h : m₁.Scoped) (hstore : m₁.store = m.store) : m.Extends m₁ :=
  ⟨Nat.le_of_eq (by rw [hstore]), h⟩

theorem Extends.trans (h₁ : m.Extends m₁) (h₂ : m₁.Extends m₂) : m.Extends m₂ :=
  ⟨Nat.le_trans h₁.size_le h₂.size_le, h₂.after⟩

end Machine

/-! ### Computations -/

/-- From `n` scopes on, what the embedding program supplies refers to scopes that are there. -/
def Host.Scoped (n : Nat) (host : Host) : Prop := ∀ k, n ≤ k → host.Obeys (.below k)

theorem Host.Scoped.mono {n k : Nat} {host : Host} (h : host.Scoped n) (hk : n ≤ k) :
    host.Scoped k :=
  fun j hj => h j (Nat.le_trans hk hj)

namespace Run

variable {α β : Type} {n : Nat} {A : Nat → α → Prop} {A' : Nat → β → Prop}

/-- Where there are `n` scopes or more, a computation refers to scopes that are there and makes
others below such scopes only. Its values satisfy `A` for the scopes that are there when it ends. -/
def Grounded (n : Nat) (A : Nat → α → Prop) (x : Run α) : Prop :=
  ∀ s m, n ≤ m.store.scopes.size → s.host.Scoped n → m.Scoped →
    (x s m).Ends (fun a m' => A m'.store.scopes.size a ∧ m.Extends m') m.Extends Machine.Scoped

namespace Grounded

theorem imp {x : Run α} {B : Nat → α → Prop} (hx : x.Grounded n A)
    (hAB : ∀ k a, A k a → B k a) : x.Grounded n B :=
  fun s m hn hs h => Outcome.Ends.imp (hx s m hn hs h) (fun a _ ha => ⟨hAB _ a ha.1, ha.2⟩)
    (fun _ => id) fun _ => id

/-- The global scope is there. -/
theorem of_global {x : Run α} (hx : ∀ k, n ≤ k → Store.global < k → x.Grounded k A) :
    x.Grounded n A :=
  fun s m hn hs h => hx _ hn h.global s m (Nat.le_refl _) (hs.mono hn) h

theorem pure {a : α} (ha : ∀ k, n ≤ k → A k a) : (pure a : Run α).Grounded n A :=
  fun _ _ hn _ h => ⟨ha _ hn, .refl h⟩

theorem value {v : Value} (hv : v.Obeys (.below n)) :
    (Pure.pure v : Run Value).Grounded n fun k => Value.Obeys (.below k) :=
  pure fun _ hk => hv.mono hk v

theorem unit (u : α) : (Pure.pure u : Run α).Grounded n fun _ _ => True := pure fun _ _ => trivial

theorem throw (f : Fault) : (throw f : Run α).Grounded n A := fun _ _ _ _ h => .refl h

theorem fail (cause : Cause) : (fail cause : Run α).Grounded n A := throw _

theorem outOfFuel : (outOfFuel : Run α).Grounded n A := fun _ _ _ _ _ => trivial

theorem setting : Run.setting.Grounded n fun _ s => s.host.Scoped n :=
  fun _ _ _ hs h => ⟨hs, .refl h⟩

theorem bridge : Run.bridge.Grounded n fun _ o => ∀ bridge, o = some bridge → ∀ k, n ≤ k →
    (∀ {type handle member args v}, (∀ v ∈ args, v.Obeys (.below k)) →
      bridge.callMember type handle member args = .ok v → v.Obeys (.below k)) ∧
    ∀ {type handle member v}, bridge.readField type handle member = .ok v → v.Obeys (.below k) :=
  fun _ _ _ hs h =>
    ⟨fun _ hbridge k hk => ⟨(hs k hk).callMember hbridge, (hs k hk).readField hbridge⟩, .refl h⟩

theorem machine : Run.machine.Grounded n fun _ _ => True := fun _ _ _ _ h => ⟨trivial, .refl h⟩

/-- A change that leaves store and registry alone. -/
theorem modify {f : Machine → Machine} (hstore : ∀ m, (f m).store = m.store)
    (hregistry : ∀ m, (f m).registry = m.registry) : (modify f).Grounded n fun _ _ => True :=
  fun _ m _ _ h => ⟨trivial, .of_store_eq (h.congr (hstore m) (hregistry m)) (hstore m)⟩

theorem fresh : fresh.Grounded n fun _ _ => True :=
  fun _ _ _ _ h => ⟨trivial, .of_store_eq (h.congr rfl rfl) rfl⟩

theorem reach (e : Event) : (reach e).Grounded n fun _ _ => True := by
  intro s m _ _ h
  unfold Run.reach
  split
  · exact h
  · exact ⟨trivial, .refl h⟩

theorem lookup (scope : ScopeId) (name : String) :
    (lookup scope name).Grounded n fun k => Value.Obeys (.below k) := by
  intro s m _ _ h
  unfold Run.lookup
  split
  · exact ⟨h.get? ‹_›, .refl h⟩
  · exact .refl h

theorem define {scope : ScopeId} (hscope : scope < n) (name : String) {v : Value}
    (hv : v.Obeys (.below n)) : (define scope name v).Grounded n fun _ _ => True := by
  intro s m hn _ h
  have hnew := h.define (Nat.lt_of_lt_of_le hscope hn) name (hv.mono hn v)
  exact ⟨trivial, Nat.le_of_eq (Store.size_define ..).symm, hnew⟩

theorem assign (scope : ScopeId) (name : String) {v : Value} (hv : v.Obeys (.below n)) :
    (assign scope name v).Grounded n fun _ _ => True := by
  intro s m hn _ h
  cases howner : m.store.owner? scope name with
  | some owner =>
    have howns := Store.owns_of_ownerFrom howner
    have hnew := h.define (Store.lt_size_of_binding? howns.isSome) name (hv.mono hn v)
    rw [assign_of_owner howner]
    exact ⟨trivial, Nat.le_of_eq (Store.size_define ..).symm, hnew⟩
  | none =>
    rw [assign_of_no_owner howner]
    exact .refl h

theorem newScope {parent : ScopeId} (hparent : parent < n) :
    (newScope parent).Grounded n fun k id => id < k := by
  intro s m hn _ h
  have hsize : (m.store.child parent).1.scopes.size = m.store.scopes.size + 1 :=
    m.store.size_child parent
  refine ⟨?_, ?_, h.child (Nat.lt_of_lt_of_le hparent hn)⟩
  · show m.store.scopes.size < (m.store.child parent).1.scopes.size
    omega
  · show m.store.scopes.size ≤ (m.store.child parent).1.scopes.size
    omega

theorem bind {x : Run α} {f : α → Run β} (hx : x.Grounded n A)
    (hf : ∀ k, n ≤ k → ∀ a, A k a → (f a).Grounded k A') : (x >>= f).Grounded n A' := by
  intro s m hn hs h
  refine Ends.bind (hx s m hn hs h) (fun a m₁ ⟨ha, h₁⟩ => ?_) fun _ => id
  have hk := Nat.le_trans hn h₁.size_le
  exact Outcome.Ends.imp (hf _ hk a ha s m₁ (Nat.le_refl _) (hs.mono hk) h₁.after)
    (fun _ _ h₂ => ⟨h₂.1, h₁.trans h₂.2⟩) (fun _ => h₁.trans) fun _ => id

theorem require (cause : Cause) {o : Option α} (ho : ∀ a, o = some a → ∀ k, n ≤ k → A k a) :
    (require cause o).Grounded n A := by
  cases o with
  | some a => exact pure (ho a rfl)
  | none => exact fail cause

theorem ofExcept {r : Except Fault α} (hr : ∀ a, r = .ok a → ∀ k, n ≤ k → A k a) :
    (ofExcept r).Grounded n A := by
  cases r with
  | ok a => exact pure (hr a rfl)
  | error f => exact throw f

theorem ofCause {r : Except Cause α} (hr : ∀ a, r = .ok a → ∀ k, n ≤ k → A k a) :
    (ofCause r).Grounded n A := by
  cases r with
  | ok a => exact pure (hr a rfl)
  | error cause => exact fail cause

theorem mapFault {x : Run α} (g : Fault → Fault) (hx : x.Grounded n A) :
    (mapFault g x).Grounded n A :=
  fun s m hn hs h => Ends.mapFault g (hx s m hn hs h)

theorem attempt {x : Run α} (hx : x.Grounded n A) :
    (attempt x).Grounded n fun k r => ∀ a, r = .ok a → A k a := by
  intro s m hn hs h
  have hends := hx s m hn hs h
  unfold Run.attempt
  cases hxm : x s m with
  | done a m₁ =>
    rw [hxm] at hends
    exact ⟨fun b hb => Except.ok.inj hb ▸ hends.1, hends.2⟩
  | failed e m₁ =>
    rw [hxm] at hends
    exact ⟨fun _ hb => absurd hb (by simp), hends⟩
  | halted why => rw [hxm] at hends; cases why <;> exact hends

/-- Work on the stacks, before and after, does not show. -/
theorem ensuring {x : Run α} {tidy : Machine → Machine} {s : Setting} {m p : Machine}
    (hp : p.store = m.store) (hstore : ∀ m', (tidy m').store = m'.store)
    (hregistry : ∀ m', (tidy m').registry = m'.registry)
    (h : (x s p).Ends (fun a m' => A m'.store.scopes.size a ∧ p.Extends m') p.Extends
      Machine.Scoped) :
    (ensuring tidy x s p).Ends (fun a m' => A m'.store.scopes.size a ∧ m.Extends m') m.Extends
      Machine.Scoped := by
  have back (m' : Machine) (hm' : p.Extends m') : m.Extends (tidy m') := by
    refine ⟨?_, hm'.after.congr (hstore m') (hregistry m')⟩
    rw [hstore, ← hp]
    exact hm'.size_le
  refine Ends.ensuring h (fun a m' h' => ⟨?_, back m' h'.2⟩) back
  rw [hstore]
  exact h'.1

theorem withExpected {x : Run α} (t : Ty) (hx : x.Grounded n A) : (withExpected t x).Grounded n A :=
  fun s _ hn hs h => ensuring rfl (fun _ => rfl) (fun _ => rfl) (hx s _ hn hs (h.congr rfl rfl))

theorem withContainer {x : Run α} (name : String) (hx : x.Grounded n A) :
    (withContainer name x).Grounded n A :=
  fun s _ hn hs h => ensuring rfl (fun _ => rfl) (fun _ => rfl) (hx s _ hn hs (h.congr rfl rfl))

theorem defineAll {scope : ScopeId} (hscope : scope < n) {bindings : List (String × Value)}
    (h : ∀ b ∈ bindings, b.2.Obeys (.below n)) :
    (defineAll scope bindings).Grounded n fun _ _ => True := by
  induction bindings generalizing n with
  | nil => exact unit ()
  | cons b rest ih =>
    obtain ⟨hb, hrest⟩ := List.forall_mem_cons.1 h
    refine bind (define hscope b.1 hb) fun k hk _ _ => ?_
    exact ih (Nat.lt_of_lt_of_le hscope hk) fun b' hb' => (hrest b' hb').mono hk b'.2

theorem matchInto {scope : ScopeId} (hscope : scope < n) (p : Pattern) {v : Value}
    (hv : v.Obeys (.below n)) : (p.matchInto scope v).Grounded n fun _ _ => True := by
  rw [Pattern.matchInto_eq]
  exact bind (defineAll hscope (p.obeys_of_mem_written v hv)) fun _ _ _ _ => unit _

/-! ### Evaluation -/

/-- An application that keeps to scopes that are there, given such a callable and arguments. -/
def Always (a : Apply) : Prop :=
  ∀ {n callee args}, callee.Obeys (.below n) → (∀ v ∈ args, v.Obeys (.below n)) → ∀ site,
    (a callee args site).Grounded n fun k => Value.Obeys (.below k)

variable {a : Apply} {scope : ScopeId}

theorem step {v : Value} (hv : v.Obeys (.below n)) :
    (Pure.pure (.done v) : Run Step).Grounded n fun k => Step.Obeys (.below k) :=
  pure fun _ hk => hv.mono hk v

theorem settled {x : Run Step} (ha : Always a) (hx : x.Grounded n fun k => Step.Obeys (.below k)) :
    (settled a x).Grounded n fun k => Value.Obeys (.below k) := by
  refine bind hx fun k _ r hr => ?_
  cases r with
  | done v => exact value hr
  | tail callee args site => exact ha hr.1 hr.2 site

theorem finishCall (ha : Always a) (ctx : EvalCtx) {callee : Value} {args : List Value}
    (hcallee : callee.Obeys (.below n)) (hargs : ∀ v ∈ args, v.Obeys (.below n)) (site : CallSite) :
    (finishCall a ctx callee args site).Grounded n fun k => Step.Obeys (.below k) := by
  unfold Run.finishCall
  split
  · exact pure fun k hk => ⟨hcallee.mono hk callee, obey_mono hargs hk⟩
  · exact bind (ha hcallee hargs site) fun k _ v hv => step hv

theorem callMember (ha : Always a) (ctx : EvalCtx) (scope : ScopeId) {recv : Value}
    (hrecv : recv.Obeys (.below n)) (method : String) {args : List Value}
    (hargs : ∀ v ∈ args, v.Obeys (.below n)) (site : CallSite) :
    (callMember a ctx scope recv method args site).Grounded n fun k => Step.Obeys (.below k) := by
  unfold Run.callMember
  split
  · refine bind bridge fun k hk o ho => ?_
    cases o with
    | none => exact fail _
    | some b =>
      refine bind (ofExcept fun v hv j hj => ?_) fun j _ v hv => step hv
      have hj := Nat.le_trans hk hj
      exact (ho b rfl j hj).1 (obey_mono hargs hj) hv
  · split
    · exact finishCall ha ctx (Value.obeys_of_member? hrecv ‹_›) hargs site
    · refine bind (lookup scope method) fun k hk fn hfn => bind machine fun j hj m _ => ?_
      have hbound : (Value.bound m.nextIdent fn recv).Obeys (.below j) :=
        ⟨hfn.mono hj fn, hrecv.mono (Nat.le_trans hk hj) recv⟩
      exact finishCall ha ctx hbound (obey_mono hargs (Nat.le_trans hk hj)) site

theorem readField {v : Value} (hv : v.Obeys (.below n)) (field : String) :
    (readField v field).Grounded n fun k => Value.Obeys (.below k) := by
  unfold Run.readField
  split
  · refine bind bridge fun k hk o ho => ?_
    cases o with
    | none => exact fail _
    | some b => exact ofExcept fun w hw j hj => (ho b rfl j (Nat.le_trans hk hj)).2 hw
  · exact ofCause fun w hw k hk => Value.obeys_of_field (hv.mono hk v) hw

theorem asBool (v : Value) : v.asBool.Grounded n fun _ _ => True := by
  unfold Value.asBool
  split
  · exact unit _
  · exact fail _

theorem buildDictionary (traitName : String) (key : TypeKey) :
    (buildDictionary traitName key).Grounded n fun k d =>
      (Value.dictionary d).Obeys (.below k) := by
  intro s m _ _ h
  unfold Run.buildDictionary
  split
  · exact ⟨fun htraits => h.registry.dictionary? htraits h.global ‹_›,
      .of_store_eq (h.congr rfl rfl) rfl⟩
  · exact .refl h

theorem bindSource (ha : Always a) (hscope : scope < n) {source : Value}
    (hsource : source.Obeys (.below n)) (name : String) (rest : List DoBind)
    (body : Spanned Expr) (span : Span) :
    (bindSource a scope source name rest body span).Grounded n fun k => Value.Obeys (.below k) := by
  refine withContainer _ (bind (lookup scope _) fun k hk bindFn hbind =>
    bind fresh fun j hj id _ => ha (hbind.mono hj bindFn) (fun v hv => ?_) _)
  have hj := Nat.le_trans hk hj
  rcases List.mem_cons.1 hv with rfl | hv
  · exact hsource.mono hj v
  · rw [List.mem_singleton.1 hv, Value.Obeys, Builtin.obeys_iff]
    have hlive : (Policy.below j).live scope := Nat.lt_of_lt_of_le hscope hj
    exact ⟨⟨hlive, bindsFollow_lax rest, nodeFollows_lax body⟩,
      fun _ h => absurd h List.not_mem_nil⟩

mutual

theorem node (ha : Always a) : ∀ (e : Spanned Expr) (ctx : EvalCtx) {n : Nat} {scope : ScopeId},
    scope < n → (evalNode a ctx scope e).Grounded n fun k => Step.Obeys (.below k)
  | ⟨e, span⟩, ctx, n, scope, hscope => by
    rw [evalNode]
    exact mapFault _ (form ha e ctx span hscope)

theorem form (ha : Always a) : ∀ (e : Expr) (ctx : EvalCtx) (span : Span) {n : Nat}
    {scope : ScopeId}, scope < n →
      (evalForm a ctx scope span e).Grounded n fun k => Step.Obeys (.below k)
  | .lit l, ctx, span, n, scope, hscope => by
    rw [evalForm]
    exact step (Value.obeys_ofLiteral l)
  | .var name, ctx, span, n, scope, hscope => by
    rw [evalForm]
    exact bind (lookup scope name) fun _ _ v hv => step hv
  | .list items, ctx, span, n, scope, hscope | .tuple items, ctx, span, n, scope, hscope => by
    rw [evalForm]
    exact bind (all ha items hscope) fun _ _ vs hvs => step ((allObey_iff vs).2 hvs)
  | .record entries, ctx, span, n, scope, hscope => by
    rw [evalForm]
    refine bind (fields ha entries [] hscope fun _ hb => absurd hb List.not_mem_nil)
      fun _ _ fs hfs => step ((fieldsObey_iff fs).2 hfs)
  | .range start stop, ctx, span, n, scope, hscope => by
    rw [evalForm]
    refine bind (settled ha (node ha start {} hscope)) fun k hk first _ => ?_
    refine bind (settled ha (node ha stop {} (Nat.lt_of_lt_of_le hscope hk))) fun _ _ last _ => ?_
    exact bind (ofCause fun v hv _ _ => Value.obeys_of_upTo hv) fun _ _ v hv => step hv
  | .lambda f, ctx, span, n, scope, hscope => by
    rw [evalForm]
    refine bind machine fun k hk m _ => bind fresh fun j hj id _ => step ?_
    exact ⟨f.follows_lax, Nat.lt_of_lt_of_le hscope (Nat.le_trans hk hj),
      fun _ _ => WitnessFrame.obeys_below _⟩
  | .call id callee args, ctx, span, n, scope, hscope => by
    rw [evalForm]
    refine bind (settled ha (node ha callee {} hscope)) fun k hk fn hfn => ?_
    refine bind (all ha args (Nat.lt_of_lt_of_le hscope hk)) fun j hj vals hvals => ?_
    exact finishCall ha ctx (hfn.mono hj fn) hvals _
  | .methodCall id receiver method args, ctx, span, n, scope, hscope => by
    rw [evalForm]
    refine bind (settled ha (node ha receiver {} hscope)) fun k hk recv hrecv => ?_
    refine bind (all ha args (Nat.lt_of_lt_of_le hscope hk)) fun j hj vals hvals => ?_
    exact callMember ha ctx scope (hrecv.mono hj recv) _ hvals _
  | .field target name, ctx, span, n, scope, hscope => by
    rw [evalForm]
    refine bind (settled ha (node ha target {} hscope)) fun _ _ v hv => ?_
    exact bind (readField hv name) fun _ _ w hw => step hw
  | .binary left op right, ctx, span, n, scope, hscope => by
    rw [evalForm]
    refine bind (settled ha (node ha left {} hscope)) fun k hk l hl => ?_
    have hscope := Nat.lt_of_lt_of_le hscope hk
    split
    · refine bind (asBool l) fun j hj b _ => ?_
      split
      · refine bind (settled ha (node ha right {} (Nat.lt_of_lt_of_le hscope hj))) fun _ _ r _ => ?_
        exact bind (asBool r) fun _ _ b' _ => step trivial
      · exact step trivial
    · refine bind (settled ha (node ha right {} hscope)) fun j hj r hr => ?_
      refine bind (ofCause fun v hv i hi => ?_) fun _ _ v hv => step hv
      exact BinOp.obeys_of_eval (hl.mono (Nat.le_trans hj hi) l) (hr.mono hi r) hv
  | .unary op operand, ctx, span, n, scope, hscope => by
    rw [evalForm]
    refine bind (settled ha (node ha operand {} hscope)) fun _ _ v _ => ?_
    exact bind (ofCause fun w hw _ _ => UnOp.obeys_of_eval hw) fun _ _ w hw => step hw
  | .operator op, ctx, span, n, scope, hscope => by
    rw [evalForm]
    exact step trivial
  | .compose outer inner, ctx, span, n, scope, hscope => by
    rw [evalForm]
    refine bind (settled ha (node ha outer {} hscope)) fun k hk f hf => ?_
    refine bind (settled ha (node ha inner {} (Nat.lt_of_lt_of_le hscope hk))) fun j hj g hg => ?_
    refine bind fresh fun i hi id _ => step ?_
    exact ⟨hf.mono (Nat.le_trans hj hi) f, hg.mono hi g⟩
  | .cond test yes no, ctx, span, n, scope, hscope => by
    rw [evalForm]
    refine bind (settled ha (node ha test {} hscope)) fun k hk v _ => ?_
    refine bind (asBool v) fun j hj b _ => ?_
    have hscope := Nat.lt_of_lt_of_le hscope (Nat.le_trans hk hj)
    split
    · exact node ha yes ctx hscope
    · exact node ha no ctx hscope
  | .letIn name ty bound body, ctx, span, n, scope, hscope => by
    rw [evalForm]
    refine bind (settled ha (node ha bound _ hscope)) fun k hk v hv => ?_
    refine bind (newScope (Nat.lt_of_lt_of_le hscope hk)) fun j hj inner hinner => ?_
    refine bind (define hinner name (hv.mono hj v)) fun i hi _ _ => ?_
    exact node ha body ctx (Nat.lt_of_lt_of_le hinner hi)
  | .block [], ctx, span, n, scope, hscope => by
    rw [evalForm]
    exact step trivial
  | .block (e :: es), ctx, span, n, scope, hscope => by
    rw [evalForm]
    exact bind (newScope hscope) fun k hk inner hinner => seq ha (e :: es) ctx hinner
  | .assign name bound, ctx, span, n, scope, hscope => by
    rw [evalForm]
    refine bind (settled ha (node ha bound {} hscope)) fun _ _ v hv => ?_
    exact bind (assign scope name hv) fun _ _ _ _ => step trivial
  | .annotated e ty, ctx, span, n, scope, hscope => by
    rw [evalForm]
    refine bind machine fun k hk m _ => ?_
    refine bind (withExpected _ (settled ha (node ha e _ (Nat.lt_of_lt_of_le hscope hk))))
      fun _ _ v hv => step hv
  | .choose scrutinee branches, ctx, span, n, scope, hscope => by
    rw [evalForm]
    refine bind (settled ha (node ha scrutinee {} hscope)) fun k hk v hv => ?_
    exact arms ha branches ctx (Nat.lt_of_lt_of_le hscope hk) hv
  | .dict traitName types, ctx, span, n, scope, hscope => by
    unfold evalForm
    split
    · exact bind fresh fun _ _ id _ => step fun _ => Dictionary.obeys_placeholder id traitName
    · exact bind (buildDictionary traitName _) fun _ _ d hd => step hd
  | .doChain [] body, ctx, span, n, scope, hscope => by
    rw [evalForm]
    exact bind (settled ha (node ha body {} hscope)) fun _ _ v hv => step hv
  | .doChain (⟨name, bound⟩ :: rest) body, ctx, span, n, scope, hscope => by
    rw [evalForm]
    refine bind (settled ha (node ha bound {} hscope)) fun k hk source hsource => ?_
    exact bind (bindSource ha (Nat.lt_of_lt_of_le hscope hk) hsource name rest body _)
      fun _ _ v hv => step hv
  | .attempt body, ctx, span, n, scope, hscope => by
    rw [evalForm]
    refine bind (attempt (settled ha (node ha body {} hscope))) fun k hk r hr => ?_
    cases r with
    | ok v => exact step (hr v rfl)
    | error f => exact bind fresh fun _ _ id _ => step trivial

theorem all (ha : Always a) : ∀ (es : List (Spanned Expr)) {n : Nat} {scope : ScopeId}, scope < n →
    (evalAll a scope es).Grounded n fun k vs => ∀ v ∈ vs, v.Obeys (.below k)
  | [], n, scope, hscope => by
    rw [evalAll]
    exact pure fun _ _ _ hv => absurd hv List.not_mem_nil
  | e :: es, n, scope, hscope => by
    rw [evalAll]
    refine bind (settled ha (node ha e {} hscope)) fun k hk v hv => ?_
    refine bind (all ha es (Nat.lt_of_lt_of_le hscope hk)) fun j hj vs hvs => ?_
    exact pure fun i hi => List.forall_mem_cons.2
      ⟨hv.mono (Nat.le_trans hj hi) v, obey_mono hvs hi⟩

theorem fields (ha : Always a) : ∀ (es : List (String × Spanned Expr))
    (done : List (String × Value)) {n : Nat} {scope : ScopeId}, scope < n →
      (∀ b ∈ done, b.2.Obeys (.below n)) →
      (evalFields a scope done es).Grounded n fun k fs => ∀ b ∈ fs, b.2.Obeys (.below k)
  | [], done, n, scope, hscope, hdone => by
    rw [evalFields]
    exact pure fun k hk b hb => (hdone b hb).mono hk b.2
  | (name, e) :: es, done, n, scope, hscope, hdone => by
    rw [evalFields]
    refine bind (settled ha (node ha e {} hscope)) fun k hk v hv => ?_
    refine fields ha es _ (Nat.lt_of_lt_of_le hscope hk) fun b hb => ?_
    rcases Assoc.of_mem_insert hb with heq | hb
    · exact heq ▸ hv
    · exact (hdone b hb).mono hk b.2

theorem seq (ha : Always a) : ∀ (es : List (Spanned Expr)) (ctx : EvalCtx) {n : Nat}
    {scope : ScopeId}, scope < n →
      (evalSeq a ctx scope es).Grounded n fun k => Step.Obeys (.below k)
  | [], ctx, n, scope, hscope => by
    rw [evalSeq]
    exact step trivial
  | [e], ctx, n, scope, hscope => by
    rw [evalSeq]
    exact node ha e ctx hscope
  | e :: e' :: es, ctx, n, scope, hscope => by
    rw [evalSeq]
    refine bind (bind (settled ha (node ha e {} hscope)) fun _ _ _ _ => unit ()) fun k hk _ _ => ?_
    exact seq ha (e' :: es) ctx (Nat.lt_of_lt_of_le hscope hk)

theorem arms (ha : Always a) : ∀ (as : List Arm) (ctx : EvalCtx) {n : Nat} {scope : ScopeId}
    {v : Value}, scope < n → v.Obeys (.below n) →
      (evalArms a ctx scope v as).Grounded n fun k => Step.Obeys (.below k)
  | [], ctx, n, scope, v, hscope, hv => by
    rw [evalArms]
    exact fail _
  | ⟨pattern, body⟩ :: as, ctx, n, scope, v, hscope, hv => by
    rw [evalArms]
    refine bind (newScope hscope) fun k hk inner hinner => ?_
    refine bind (matchInto hinner pattern.node (hv.mono hk v)) fun j hj matched _ => ?_
    split
    · exact node ha body ctx (Nat.lt_of_lt_of_le hinner hj)
    · have hle := Nat.le_trans hk hj
      exact arms ha as ctx (Nat.lt_of_lt_of_le hscope hle) (hv.mono hle v)

end

end Grounded

end Run

end TraitLang
