import Mathlib.Logic.Relation
import TraitLang.Proofs.ScopeHygiene

/-!
Chains of scopes. A new scope goes below one that is there, so that no chain of parents comes back
to where it started, and a walk up the chain ends at the innermost scope that binds a name. Giving
a name a new value changes it in that scope and nowhere else.
-/
namespace TraitLang.Store

def IsParent (st : Store) (parent id : ScopeId) : Prop := st.parent? id = some parent

/-- Stores that come from a fresh one. -/
inductive Built : Store → Prop
  | fresh : Built fresh
  | child {st : Store} {parent : ScopeId} : Built st → parent < st.scopes.size →
      Built (st.child parent).1
  | define {st : Store} {id : ScopeId} (name : String) (v : Value) : Built st →
      id < st.scopes.size → Built (st.define id name v)
  | set {st st' : Store} {id : ScopeId} {name : String} {v : Value} : Built st →
      st.set? id name v = some st' → Built st'

/-- Going up from a scope, `owner` is the first that binds the name. -/
inductive Owns (st : Store) (name : String) : ScopeId → ScopeId → Prop
  | here {id : ScopeId} : (st.binding? id name).isSome = true → Owns st name id id
  | above {id parent owner : ScopeId} : st.binding? id name = none → st.IsParent parent id →
      Owns st name parent owner → Owns st name id owner

/-- Only the value of the name in `owner` differs, and it shows where the name is looked up from a
scope that finds it there. -/
structure Rebinds (st st' : Store) (owner : ScopeId) (name : String) (v : Value) : Prop where
  size : st'.scopes.size = st.scopes.size
  parents : ∀ id, st'.parent? id = st.parent? id
  names : ∀ id, st'.localNames id = st.localNames id
  bindings : ∀ id y, st'.binding? id y = if id = owner ∧ y = name then some v else st.binding? id y
  found : ∀ id, st.Owns name id owner → st'.get? id name = some v
  others : ∀ id y, y ≠ name ∨ ¬ st.Owns name id owner → st'.get? id y = st.get? id y

/-- The laws of looking names up and of giving them new values. -/
structure Lawful (st : Store) : Prop where
  acyclic : ∀ id, ¬ Relation.TransGen st.IsParent id id
  /-- One cannot go on to parents forever. -/
  ends : WellFounded st.IsParent
  owner_iff : ∀ {id name owner}, st.owner? id name = some owner ↔ st.Owns name id owner
  get_iff : ∀ {id name v}, st.get? id name = some v ↔
    ∃ owner, st.Owns name id owner ∧ st.binding? owner name = some v
  contains_iff_get : ∀ {id name}, st.contains id name = true ↔ (st.get? id name).isSome = true
  contains_iff_set : ∀ {id name} v, st.contains id name = true ↔ (st.set? id name v).isSome = true
  set : ∀ {id name v st'}, st.set? id name v = some st' →
    ∃ owner, st.Owns name id owner ∧ st.Rebinds st' owner name v

variable {st st' : Store} {id parent owner : ScopeId} {name : String} {v : Value}

/-! ### Scopes and what they bind -/

@[simp] theorem size_define (st : Store) (id : ScopeId) (name : String) (v : Value) :
    (st.define id name v).scopes.size = st.scopes.size := by simp [define]

@[simp] theorem size_child (st : Store) (parent : ScopeId) :
    (st.child parent).1.scopes.size = st.scopes.size + 1 := by simp [child]

theorem parent?_child (st : Store) (parent id : ScopeId) :
    (st.child parent).1.parent? id =
      if id = st.scopes.size then some parent else st.parent? id := by
  simp only [parent?, child, Array.getElem?_push]
  split <;> rfl

theorem binding?_child (st : Store) (parent id : ScopeId) (name : String) :
    (st.child parent).1.binding? id name = st.binding? id name := by
  simp only [binding?, child, Array.getElem?_push]
  split
  · rename_i hid
    simp [hid]
  · rfl

theorem lt_size_of_binding? (h : (st.binding? id name).isSome = true) : id < st.scopes.size := by
  by_cases hid : id < st.scopes.size
  · exact hid
  · simp [binding?, Array.getElem?_eq_none (Nat.le_of_not_lt hid)] at h

theorem mem_localNames_iff :
    name ∈ st.localNames id ↔ (st.binding? id name).isSome = true := by
  rw [localNames, binding?]
  cases st.scopes[id]? with
  | none => simp
  | some scope => simp [Assoc.keys, List.lookup_isSome_iff]

theorem binding?_define (hid : owner < st.scopes.size) (name : String) (v : Value) (id : ScopeId)
    (y : String) :
    (st.define owner name v).binding? id y =
      if id = owner ∧ y = name then some v else st.binding? id y := by
  by_cases h : id = owner
  · subst h
    have hscope : st.scopes[id]? = some st.scopes[id] := Array.getElem?_eq_getElem hid
    simp [binding?, define, Array.getElem?_modify, hscope, Assoc.lookup_insert]
  · simp [binding?, getElem?_define_of_ne (Ne.symm h), h]

/-! ### Walks up the chain -/

theorem ownerFrom_succ (st : Store) (name : String) (fuel : Nat) (id : ScopeId) :
    st.ownerFrom name (fuel + 1) id =
      if (st.binding? id name).isSome then some id
      else (st.parent? id).bind (st.ownerFrom name fuel) := by
  rw [ownerFrom, binding?, parent?]
  cases st.scopes[id]? <;> rfl

/-- A walk sees the parents and which names are bound. -/
theorem ownerFrom_congr (hparents : ∀ id, st'.parent? id = st.parent? id)
    (hnames : ∀ id, (st'.binding? id name).isSome = (st.binding? id name).isSome) (fuel : Nat)
    (id : ScopeId) : st'.ownerFrom name fuel id = st.ownerFrom name fuel id := by
  induction fuel generalizing id with
  | zero => rfl
  | succ fuel ih => simp only [ownerFrom_succ, hparents, hnames, funext ih]

theorem owns_of_ownerFrom {fuel : Nat} (h : st.ownerFrom name fuel id = some owner) :
    st.Owns name id owner := by
  induction fuel generalizing id with
  | zero => cases h
  | succ fuel ih =>
    rw [ownerFrom_succ] at h
    split at h
    · cases h
      exact .here ‹_›
    · rename_i hnone
      obtain ⟨parent, hparent, howner⟩ := Option.bind_eq_some_iff.1 h
      exact .above (Option.not_isSome_iff_eq_none.1 hnone) hparent (ih howner)

theorem Owns.isSome (h : st.Owns name id owner) : (st.binding? owner name).isSome = true := by
  induction h with
  | here h => exact h
  | above _ _ _ ih => exact ih

theorem contains_iff_isSome_get? :
    st.contains id name = true ↔ (st.get? id name).isSome = true := by
  rw [contains_eq_owner?, get?_eq_owner?]
  cases howner : st.owner? id name with
  | none => rfl
  | some owner => simp [(owns_of_ownerFrom howner).isSome]

theorem contains_iff_isSome_set? (v : Value) :
    st.contains id name = true ↔ (st.set? id name v).isSome = true := by
  simp [contains_eq_owner?, set?_eq_owner?]

/-! ### Stores whose parents are older than their children -/

/-- A parent is made before its child. -/
def Layered (st : Store) : Prop := ∀ parent id, st.IsParent parent id → parent < id

theorem Layered.lt_of_transGen (h : st.Layered) (hchain : Relation.TransGen st.IsParent parent id) :
    parent < id := by
  induction hchain with
  | single hstep => exact h _ _ hstep
  | tail _ hstep ih => exact Nat.lt_trans ih (h _ _ hstep)

theorem Layered.wellFounded (h : st.Layered) : WellFounded st.IsParent :=
  Subrelation.wf (h _ _) Nat.lt_wfRel.wf

/-- The number of a scope is fuel enough for its chain. -/
theorem Layered.ownerFrom_of_owns (h : st.Layered) (howns : st.Owns name id owner) {fuel : Nat}
    (hfuel : id < fuel) : st.ownerFrom name fuel id = some owner := by
  induction howns generalizing fuel with
  | here hsome =>
    obtain ⟨fuel, rfl⟩ := Nat.exists_eq_succ_of_ne_zero (Nat.ne_zero_of_lt hfuel)
    rw [ownerFrom_succ, if_pos hsome]
  | above hnone hparent _ ih =>
    obtain ⟨fuel, rfl⟩ := Nat.exists_eq_succ_of_ne_zero (Nat.ne_zero_of_lt hfuel)
    rw [ownerFrom_succ, hnone, show st.parent? _ = some _ from hparent]
    exact ih (Nat.lt_of_lt_of_le (h _ _ hparent) (Nat.le_of_lt_succ hfuel))

theorem Layered.owner?_iff (h : st.Layered) :
    st.owner? id name = some owner ↔ st.Owns name id owner :=
  ⟨owns_of_ownerFrom, fun howns => h.ownerFrom_of_owns howns (Nat.lt_succ_self id)⟩

theorem Layered.get?_iff (h : st.Layered) :
    st.get? id name = some v ↔
      ∃ owner, st.Owns name id owner ∧ st.binding? owner name = some v := by
  simp only [get?_eq_owner?, Option.bind_eq_some_iff, h.owner?_iff]

theorem Layered.rebinds (h : st.Layered) (hset : st.set? id name v = some st') :
    ∃ owner, st.Owns name id owner ∧ st.Rebinds st' owner name v := by
  rw [set?_eq_owner?] at hset
  obtain ⟨owner, howner, rfl⟩ := Option.map_eq_some_iff.1 hset
  have howns := owns_of_ownerFrom howner
  have hbinding := binding?_define (lt_size_of_binding? howns.isSome) name v
  -- The name is bound in its owner already, so every walk ends where it ended.
  have howner_eq (id : ScopeId) (y : String) :
      (st.define owner name v).owner? id y = st.owner? id y := by
    refine ownerFrom_congr (fun id => parent?_define owner v) (fun id => ?_) _ id
    rw [hbinding]
    split
    · rename_i heq
      rw [heq.1, heq.2, howns.isSome]
      rfl
    · rfl
  refine ⟨owner, howns, size_define .., fun _ => parent?_define owner v,
    fun _ => localNames_define_owner howner v, hbinding, fun id' hid' => ?_, fun id' y hy => ?_⟩
  · rw [get?_eq_owner?, howner_eq, h.owner?_iff.2 hid', Option.bind_some, hbinding,
      if_pos ⟨rfl, rfl⟩]
  · rw [get?_eq_owner?, get?_eq_owner?, howner_eq]
    cases howner' : st.owner? id' y with
    | none => rfl
    | some owner' =>
      rw [Option.bind_some, Option.bind_some, hbinding, if_neg]
      rintro ⟨rfl, rfl⟩
      exact hy.elim (fun hne => hne rfl) fun hnot => hnot (owns_of_ownerFrom howner')

theorem Layered.lawful (h : st.Layered) : st.Lawful where
  acyclic _ hcycle := Nat.lt_irrefl _ (h.lt_of_transGen hcycle)
  ends := h.wellFounded
  owner_iff := h.owner?_iff
  get_iff := h.get?_iff
  contains_iff_get := contains_iff_isSome_get?
  contains_iff_set := contains_iff_isSome_set?
  set := h.rebinds

/-! ### Built stores -/

theorem Built.size_pos (h : st.Built) : 0 < st.scopes.size := by
  induction h with
  | fresh => exact Nat.one_pos
  | child _ _ _ => simp
  | define _ _ _ _ ih => simpa using ih
  | set _ hset ih =>
    rw [set?_eq_owner?] at hset
    obtain ⟨owner, -, rfl⟩ := Option.map_eq_some_iff.1 hset
    simpa using ih

theorem Built.layered (h : st.Built) : st.Layered := by
  induction h with
  | fresh =>
    intro parent id hparent
    cases id <;> cases hparent
  | child _ hlt ih =>
    intro parent id hparent
    rw [IsParent, parent?_child] at hparent
    split at hparent
    · rename_i hid
      cases hparent
      exact hid ▸ hlt
    · exact ih _ _ hparent
  | define name v _ _ ih =>
    intro parent id hparent
    exact ih _ _ ((parent?_define _ v).symm.trans hparent)
  | set _ hset ih =>
    intro parent id hparent
    rw [set?_eq_owner?] at hset
    obtain ⟨owner, -, rfl⟩ := Option.map_eq_some_iff.1 hset
    exact ih _ _ ((parent?_define owner _).symm.trans hparent)

theorem Built.lawful (h : st.Built) : st.Lawful := h.layered.lawful

end TraitLang.Store
