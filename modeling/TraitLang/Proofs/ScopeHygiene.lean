import TraitLang.Proofs.Calls
import TraitLang.Proofs.KeptCalls

/-!
Scopes are private to the code that made them. Main statement: evaluating an expression and applying
a callable leave every scope that was there before with the same parent and the same names in the
same order, however they end; where no code can assign they leave it as it is.
-/
namespace TraitLang

namespace Store

/-- Every scope is still there, with the same parent and the same names. -/
structure KeepsNames (st st' : Store) : Prop where
  size_le : st.scopes.size ≤ st'.scopes.size
  parent : ∀ id < st.scopes.size, st'.parent? id = st.parent? id
  names : ∀ id < st.scopes.size, st'.localNames id = st.localNames id

/-- Every scope is as it was. -/
def KeepsScopes (st st' : Store) : Prop :=
  ∀ id < st.scopes.size, st'.scopes[id]? = st.scopes[id]?

variable {st : Store} {id owner : ScopeId} {name : String}

theorem exists_of_ownerFrom {fuel : Nat} (h : st.ownerFrom name fuel id = some owner) :
    ∃ scope, st.scopes[owner]? = some scope ∧ Assoc.contains name scope.bindings = true := by
  induction fuel generalizing id with
  | zero => cases h
  | succ fuel ih =>
    rw [ownerFrom] at h
    split at h
    · cases h
    · rename_i scope hscope
      split at h
      · cases h
        exact ⟨scope, hscope, ‹_›⟩
      · obtain ⟨p, -, h⟩ := Option.bind_eq_some_iff.1 h
        exact ih h

@[simp] theorem parent?_define (scope : ScopeId) (v : Value) :
    (st.define scope name v).parent? id = st.parent? id := by
  simp only [parent?, define, Array.getElem?_modify]
  split
  · cases st.scopes[id]? <;> rfl
  · rfl

/-- A name that is bound gets no second place. -/
theorem localNames_define_owner {scope : ScopeId} (h : st.owner? scope name = some owner)
    (v : Value) : (st.define owner name v).localNames id = st.localNames id := by
  obtain ⟨own, hown, hcontains⟩ := exists_of_ownerFrom h
  by_cases hid : owner = id
  · subst hid
    simp [localNames, define, Array.getElem?_modify, hown,
      Assoc.keys_insert_of_contains hcontains]
  · simp [localNames, getElem?_define_of_ne hid]

end Store

/-- Effects keep the names of the first `n` scopes, where native functions bind none there. -/
theorem Effect.keepsNames {W : Powers} (hW : ¬W.defines) {n : Nat} {m m' : Machine}
    (h : Effect W n m m') (hn : n ≤ m.store.scopes.size) {id : ScopeId} (hid : id < n) :
    m'.store.parent? id = m.store.parent? id ∧ m'.store.localNames id = m.store.localNames id := by
  induction h with
  | refl m => exact ⟨rfl, rfl⟩
  | trans h₁ _ ih₁ ih₂ =>
    obtain ⟨hparent₁, hnames₁⟩ := ih₁ hn
    obtain ⟨hparent₂, hnames₂⟩ := ih₂ (Nat.le_trans hn h₁.size_le)
    exact ⟨hparent₂.trans hparent₁, hnames₂.trans hnames₁⟩
  | child m parent =>
    have hscope := Store.getElem?_child_of_lt parent (Nat.lt_of_lt_of_le hid hn)
    simp only [Store.parent?, Store.localNames, hscope, and_self]
  | define m scope name v hscope =>
    have hne : scope ≠ id := Nat.ne_of_gt (Nat.lt_of_lt_of_le hid (hscope.resolve_right hW))
    simp only [Store.parent?_define, Store.localNames, Store.getElem?_define_of_ne hne, and_self]
  | assign m scope owner name v howner =>
    exact ⟨Store.parent?_define owner v, Store.localNames_define_owner howner v⟩
  | ident | print | materialize | change | source | install => exact ⟨rfl, rfl⟩

namespace Run

variable {α : Type}

theorem Restores.keepsNames {W : Powers} (hW : ¬W.defines) {x : Run α}
    (hx : ∀ k, x.Restores W (fun s _ _ => s.host.Within W) k) {s : Setting}
    (hs : s.host.Within W) (m : Machine) :
    (x s m).Ends (fun _ m' => m.store.KeepsNames m'.store) (fun m' => m.store.KeepsNames m'.store)
      fun _ => True := by
  have names (m' : Machine) (h : Effect W m.store.scopes.size m m') :
      m.store.KeepsNames m'.store :=
    ⟨h.size_le, fun _ hid => (h.keepsNames hW (Nat.le_refl _) hid).1,
      fun _ hid => (h.keepsNames hW (Nat.le_refl _) hid).2⟩
  exact Outcome.Ends.imp (hx _ s m m.store.scopes.size (Nat.le_refl _) (Nat.le_refl _) hs)
    (fun _ => names) names fun _ _ => trivial

theorem Keeps.keepsScopes {P : Policy} {A : α → Prop} {x : Run α} (hx : ∀ k, x.Keeps P k A)
    (hassigns : ¬ P.assigns) {s : Setting} {m : Machine} (hs : s.host.Obeys P) (hm : m.Obeys P) :
    (x s m).Ends (fun _ m' => m.store.KeepsScopes m'.store)
      (fun m' => m.store.KeepsScopes m'.store) fun _ => True :=
  Outcome.Ends.imp ((hx _).ends s m m.store.scopes.size (Nat.le_refl _) (Nat.le_refl _) hs hm)
    (fun _ _ h id hid => h.2.scopes id hid (.inl hassigns))
    (fun _ h id hid => h.scopes id hid (.inl hassigns)) fun _ _ => trivial

end Run

/-- No code may assign. -/
def Policy.withoutAssign (live : ScopeId → Prop) : Policy where
  assigns := false
  traits := true
  live
  evidence _ := True
  evidence_of_known _ _ _ := trivial

/-- Native functions that bind no names in scopes that were there before, whatever else they do. -/
def Powers.withoutDefine : Powers := .only fun _ _ => True

/-- Evaluating and applying leave every scope that was there before with its parent and its names,
given native functions that do. If no assignment stands in the code that is run, nor in that which
can be reached from it, from the global scope, from the traits and from the host, they leave it as
it is. -/
theorem scope_hygiene (fuel : Nat) (s : Setting) (m : Machine) :
    (s.host.Within .withoutDefine →
      (∀ ctx scope e, (evalNode (apply fuel) ctx scope e s m).Ends
        (fun _ m' => m.store.KeepsNames m'.store) (fun m' => m.store.KeepsNames m'.store)
        fun _ => True) ∧
      ∀ callee args site, (apply fuel callee args site s m).Ends
        (fun _ m' => m.store.KeepsNames m'.store) (fun m' => m.store.KeepsNames m'.store)
        fun _ => True) ∧
    ∀ live, s.host.Obeys (.withoutAssign live) → m.Obeys (.withoutAssign live) →
      (∀ ctx scope e, live scope → nodeAssignFree e = true →
        (evalNode (apply fuel) ctx scope e s m).Ends
          (fun _ m' => m.store.KeepsScopes m'.store) (fun m' => m.store.KeepsScopes m'.store)
          fun _ => True) ∧
      ∀ callee args site, callee.Obeys (.withoutAssign live) →
        (∀ v ∈ args, v.Obeys (.withoutAssign live)) →
        (apply fuel callee args site s m).Ends
          (fun _ m' => m.store.KeepsScopes m'.store) (fun m' => m.store.KeepsScopes m'.store)
          fun _ => True := by
  have restores := Run.Restores.apply (W := .withoutDefine)
    (B := fun s _ _ => s.host.Within .withoutDefine) id (fun h _ => h.holds) fuel
  refine ⟨fun hhost => ⟨fun ctx scope e => ?_, fun callee args site => ?_⟩, fun live hs hm =>
    ⟨fun ctx scope e hscope he => ?_, fun callee args site hcallee hargs => ?_⟩⟩
  · exact Run.Restores.keepsNames id (fun k => .node restores ctx scope e k) hhost m
  · exact Run.Restores.keepsNames id (restores callee args site) hhost m
  · exact Run.Keeps.keepsScopes
      (fun k => .node (P := .withoutAssign live) (Run.Keeps.apply fuel) ctx hscope e k he)
      Bool.false_ne_true hs hm
  · exact Run.Keeps.keepsScopes (Run.Keeps.apply fuel hcallee hargs site) Bool.false_ne_true hs hm

namespace LetOverGlobal

def pick : Value :=
  .function 0
    { func := ⟨"pick", [⟨"n", none, none, false⟩], none, [], [], ⟨.var "n", {}⟩, {}⟩
      scope := Store.global }

def start : Machine where
  store := ⟨#[{ bindings := [("n", .int 1), ("pick", pick)] }]⟩
  nextIdent := 1

/-- `let n = 2 in pick(n)` -/
def shadow : Spanned Expr :=
  ⟨.letIn "n" none ⟨.lit (.int 2), {}⟩ ⟨.call 0 ⟨.var "pick", {}⟩ [⟨.var "n", {}⟩], {}⟩, {}⟩

theorem obeys_start : start.Obeys (.withoutAssign fun _ => True) := by
  have hpick : pick.Obeys (.withoutAssign fun _ => True) :=
    ⟨rfl, trivial, fun _ hf => absurd hf (by simp)⟩
  refine ⟨trivial, ⟨fun _ => trivial, fun _ _ _ => trivial, fun {id scope name v} _ hid hv => ?_⟩,
    ⟨fun hv => ?_, fun hf => ?_, fun hv => ?_⟩, fun f hf => ?_⟩
  · cases id with
    | zero =>
      cases hid
      have hbindings : ∀ b ∈ [("n", Value.int 1), ("pick", pick)],
          b.2.Obeys (.withoutAssign fun _ => True) := by simp [hpick]
      exact obeys_of_lookup hbindings hv
    | succ id => cases hid
  · cases hv
  · cases hf
  · cases hv
  · cases hf

end LetOverGlobal

theorem Host.within_default {W : Powers} : ({} : Host).Within W := fun _ _ => trivial

open LetOverGlobal in
/-- Two scopes bind a global name again, and the global scope stays as it is. -/
theorem scope_hygiene_shadow :
    (∃ v m', evalNode (apply 3) {} Store.global shadow {} start = .done (.done v) m' ∧
      m'.store.scopes.size = 3) ∧
    nodeAssignFree shadow = true ∧
    (evalNode (apply 3) {} Store.global shadow {} start).Ends
      (fun _ m' => start.store.KeepsNames m'.store) (fun m' => start.store.KeepsNames m'.store)
      (fun _ => True) ∧
    (evalNode (apply 3) {} Store.global shadow {} start).Ends
      (fun _ m' => start.store.KeepsScopes m'.store) (fun m' => start.store.KeepsScopes m'.store)
      fun _ => True :=
  ⟨⟨_, _, rfl, rfl⟩, rfl,
    ((scope_hygiene 3 {} start).1 Host.within_default).1 {} Store.global shadow,
    ((scope_hygiene 3 {} start).2 _ Host.obeys_default obeys_start).1 {} Store.global shadow
      trivial rfl⟩

end TraitLang
