import Mathlib.Data.List.Forall2
import TraitLang.Proofs.ParameterBinding
import TraitLang.Proofs.ScopeChains

/-!
Matching. When a pattern matches a value and what its variables stand for are stated without an
algorithm. Main statement: a choice runs the body of the first arm whose pattern matches, in a new
scope that binds the variables of this pattern and nothing else, or fails where no pattern matches.
Each pattern is tried in a scope of its own, and those that failed stay behind unseen.
-/
namespace TraitLang

namespace Pattern

/-- Literals match values that are equal to them, compound patterns match part by part. -/
inductive Matches : Pattern → Value → Prop
  | wildcard (v : Value) : Matches .wildcard v
  | var (name : String) (v : Value) : Matches (.var name) v
  | literal {l : Literal} {v : Value} : (Value.ofLiteral l == v) = true → Matches (.literal l) v
  | constructor {type name : String} {ps : List Pattern} {vs : List Value} :
      List.Forall₂ Matches ps vs → Matches (.constructor name ps) (.data type name vs)
  | tuple {ps : List Pattern} {vs : List Value} :
      List.Forall₂ Matches ps vs → Matches (.tuple ps) (.tuple vs)
  | record {ps : List (String × Pattern)} {fields : List (String × Value)} :
      (∀ name p, (name, p) ∈ ps → (fields.lookup name).isSome = true) →
      (∀ name p v, (name, p) ∈ ps → fields.lookup name = some v → Matches p v) →
      Matches (.record ps) (.record fields)

/-- The pattern has the part `q` in place `i`, which stands against the part `u` of the value. -/
inductive Part : Pattern → Value → Nat → Pattern → Value → Prop
  | constructor {type name ctor : String} {ps : List Pattern} {vs : List Value} {i : Nat}
      {q : Pattern} {u : Value} : ps[i]? = some q → vs[i]? = some u →
      Part (.constructor name ps) (.data type ctor vs) i q u
  | tuple {ps : List Pattern} {vs : List Value} {i : Nat} {q : Pattern} {u : Value} :
      ps[i]? = some q → vs[i]? = some u → Part (.tuple ps) (.tuple vs) i q u
  | record {ps : List (String × Pattern)} {fields : List (String × Value)} {i : Nat}
      {name : String} {q : Pattern} {u : Value} : ps[i]? = some (name, q) →
      fields.lookup name = some u → Part (.record ps) (.record fields) i q u

/-- The places on the path lead to the variable `x`, which stands against the part `w`. -/
inductive Binds : Pattern → Value → List Nat → String → Value → Prop
  | var (x : String) (w : Value) : Binds (.var x) w [] x w
  | part {p q : Pattern} {v u w : Value} {i : Nat} {path : List Nat} {x : String} :
      p.Part v i q u → Binds q u path x w → Binds p v (i :: path) x w

/-- The first path leads to the left of where the second leads. -/
inductive LeftOf : List Nat → List Nat → Prop
  | here {i j : Nat} (path path' : List Nat) : i < j → LeftOf (i :: path) (j :: path')
  | inside (i : Nat) {path path' : List Nat} : LeftOf path path' → LeftOf (i :: path) (i :: path')

/-- The last variable `x` of the pattern stands against `w`. -/
def BindsLast (p : Pattern) (v : Value) (x : String) (w : Value) : Prop :=
  ∃ path, p.Binds v path x w ∧ ∀ path' w', p.Binds v path' x w' → path' = path ∨ LeftOf path' path

mutual

/-- The variables of a pattern, from left to right. -/
def vars : Pattern → List String
  | wildcard | literal _ => []
  | var name => [name]
  | constructor _ ps | tuple ps => varsAll ps
  | record ps => varsFields ps

def varsAll : List Pattern → List String
  | [] => []
  | p :: ps => p.vars ++ varsAll ps

def varsFields : List (String × Pattern) → List String
  | [] => []
  | (_, p) :: ps => p.vars ++ varsFields ps

end

/-! ### When there are bindings -/

mutual

theorem isSome_bindings?_iff :
    ∀ (p : Pattern) (v : Value), (p.bindings? v).isSome = true ↔ p.Matches v
  | .wildcard, v => iff_of_true (by simp [bindings?]) (.wildcard v)
  | .var name, v => iff_of_true (by simp [bindings?]) (.var name v)
  | .literal l, v => by
    have hsome : ((literal l).bindings? v).isSome = true ↔ (Value.ofLiteral l == v) = true := by
      rw [bindings?]
      split <;> simp_all
    rw [hsome]
    exact ⟨.literal, fun h => by cases h; assumption⟩
  | .constructor name ps, v => by
    cases v with
    | data type ctor vs =>
      rw [bindings?]
      split
      · rename_i hname
        rw [isSome_bindingsAll?_iff ps vs]
        exact ⟨fun h => hname ▸ .constructor h, fun h => by cases h; assumption⟩
      · rename_i hname
        exact iff_of_false (by simp) fun h => by cases h; exact hname rfl
    | _ => exact iff_of_false (by simp [bindings?]) fun h => by cases h
  | .tuple ps, v => by
    cases v with
    | tuple vs =>
      rw [bindings?, isSome_bindingsAll?_iff ps vs]
      exact ⟨.tuple, fun h => by cases h; assumption⟩
    | _ => exact iff_of_false (by simp [bindings?]) fun h => by cases h
  | .record ps, v => by
    cases v with
    | record fields =>
      rw [bindings?, isSome_bindingsFields?_iff ps fields]
      constructor
      · intro h
        refine .record (fun name p hp => ?_) fun name p v hp hv => ?_
        · obtain ⟨v, hv, -⟩ := h name p hp
          simp [hv]
        · obtain ⟨v', hv', hmatches⟩ := h name p hp
          cases hv.symm.trans hv'
          exact hmatches
      · intro h name p hp
        cases h with
        | record hfields hparts =>
          obtain ⟨v, hv⟩ := Option.isSome_iff_exists.1 (hfields name p hp)
          exact ⟨v, hv, hparts name p v hp hv⟩
    | _ => exact iff_of_false (by simp [bindings?]) fun h => by cases h

theorem isSome_bindingsAll?_iff : ∀ (ps : List Pattern) (vs : List Value),
    (bindingsAll? ps vs).isSome = true ↔ List.Forall₂ Matches ps vs
  | [], vs => by cases vs <;> simp [bindingsAll?]
  | p :: ps, vs => by
    cases vs with
    | nil => simp [bindingsAll?]
    | cons v vs =>
      rw [bindingsAll?_cons, List.forall₂_cons, ← isSome_bindings?_iff p v,
        ← isSome_bindingsAll?_iff ps vs]
      cases p.bindings? v <;> simp

theorem isSome_bindingsFields?_iff :
    ∀ (ps : List (String × Pattern)) (fields : List (String × Value)),
      (bindingsFields? ps fields).isSome = true ↔
        ∀ name p, (name, p) ∈ ps → ∃ v, fields.lookup name = some v ∧ p.Matches v
  | [], fields => by simp [bindingsFields?]
  | (name, p) :: ps, fields => by
    have hrest := isSome_bindingsFields?_iff ps fields
    constructor
    · intro h name' p' hp'
      obtain ⟨bs, hbs⟩ := Option.isSome_iff_exists.1 h
      obtain ⟨v, first, rest, hv, hfirst, htail, -⟩ := of_bindingsFields?_cons hbs
      rcases List.mem_cons.1 hp' with heq | hmem
      · cases heq
        exact ⟨v, hv, (isSome_bindings?_iff p v).1 (by simp [hfirst])⟩
      · exact hrest.1 (by simp [htail]) name' p' hmem
    · intro h
      obtain ⟨v, hv, hmatches⟩ := h name p List.mem_cons_self
      obtain ⟨bs, hbs⟩ := Option.isSome_iff_exists.1 ((isSome_bindings?_iff p v).2 hmatches)
      rw [bindingsFields?_cons, hv, Option.bind_some, hbs, Option.bind_some, Option.isSome_map]
      exact hrest.2 fun name' p' hmem => h name' p' (List.mem_cons_of_mem _ hmem)

end

instance (p : Pattern) (v : Value) : Decidable (p.Matches v) :=
  decidable_of_iff _ (isSome_bindings?_iff p v)

/-! ### What the variables stand for -/

theorem LeftOf.asymm {path path' : List Nat} (h : LeftOf path path') : ¬ LeftOf path' path := by
  induction h with
  | here _ _ hlt =>
    intro h'
    cases h' with
    | here _ _ hgt => omega
    | inside _ _ => omega
  | inside i _ ih =>
    intro h'
    cases h' with
    | here _ _ hlt => omega
    | inside _ h' => exact ih h'

theorem Part.unique {p q q' : Pattern} {v u u' : Value} {i : Nat} (h : p.Part v i q u)
    (h' : p.Part v i q' u') : q = q' ∧ u = u' := by
  cases h with
  | constructor hq hu =>
    cases h' with
    | constructor hq' hu' => simp_all
  | tuple hq hu =>
    cases h' with
    | tuple hq' hu' => simp_all
  | record hq hu =>
    cases h' with
    | record hq' hu' =>
      cases hq.symm.trans hq'
      exact ⟨rfl, Option.some.inj (hu.symm.trans hu')⟩

theorem Binds.unique {p : Pattern} {v w w' : Value} {path : List Nat} {x x' : String}
    (h : p.Binds v path x w) (h' : p.Binds v path x' w') : w = w' := by
  induction h with
  | var x w =>
    cases h'
    rfl
  | part hpart _ ih =>
    cases h' with
    | part hpart' hbinds' =>
      obtain ⟨rfl, rfl⟩ := hpart.unique hpart'
      exact ih hbinds'

theorem BindsLast.unique {p : Pattern} {v w w' : Value} {x : String} (h : p.BindsLast v x w)
    (h' : p.BindsLast v x w') : w = w' := by
  obtain ⟨path, hbinds, hlast⟩ := h
  obtain ⟨path', hbinds', hlast'⟩ := h'
  rcases hlast path' w' hbinds' with rfl | hleft
  · exact hbinds.unique hbinds'
  · rcases hlast' path w hbinds with rfl | hleft'
    · exact hbinds.unique hbinds'
    · exact absurd hleft' hleft.asymm

/-- From left to right, the bindings are those of the variables that `B` has on its paths. -/
def Enumerates (B : List Nat → String → Value → Prop) (bs : List (String × Value)) : Prop :=
  ∃ found : List (List Nat × String × Value), found.map Prod.snd = bs ∧
    found.Pairwise (fun a b => LeftOf a.1 b.1) ∧ ∀ path x w, (path, x, w) ∈ found ↔ B path x w

/-- Variables in parts that are numbered from `k` on. -/
def InParts (part : Nat → Pattern → Value → Prop) (k : Nat) (path : List Nat) (x : String)
    (w : Value) : Prop :=
  ∃ i rest q u, path = (k + i) :: rest ∧ part i q u ∧ q.Binds u rest x w

namespace Enumerates

variable {B B' : List Nat → String → Value → Prop} {bs bs' : List (String × Value)}
  {part : Nat → Pattern → Value → Prop} {k : Nat}

theorem congr (h : Enumerates B bs) (hB : ∀ path x w, B path x w ↔ B' path x w) :
    Enumerates B' bs := by
  obtain ⟨found, hbs, hsorted, hfound⟩ := h
  exact ⟨found, hbs, hsorted, fun path x w => (hfound path x w).trans (hB path x w)⟩

theorem nil (h : ∀ path x w, ¬ B path x w) : Enumerates B [] :=
  ⟨[], rfl, .nil, fun path x w => iff_of_false (by simp) (h path x w)⟩

/-- The variables of the first part are to the left of those of the others. -/
theorem cons {p : Pattern} {v : Value} (hfirst : ∀ q u, part 0 q u ↔ q = p ∧ u = v)
    (h : Enumerates (p.Binds v) bs)
    (h' : Enumerates (InParts (fun i => part (i + 1)) (k + 1)) bs') :
    Enumerates (InParts part k) (bs ++ bs') := by
  obtain ⟨found, rfl, hsorted, hfound⟩ := h
  obtain ⟨found', rfl, hsorted', hfound'⟩ := h'
  refine ⟨found.map (fun a => (k :: a.1, a.2)) ++ found', by simp, ?_, fun path x w => ?_⟩
  · refine List.pairwise_append.2 ⟨?_, hsorted', fun a ha b hb => ?_⟩
    · exact List.pairwise_map.2 (hsorted.imp fun hleft => .inside k hleft)
    · obtain ⟨a, -, rfl⟩ := List.mem_map.1 ha
      obtain ⟨path', x', w'⟩ := b
      obtain ⟨i, rest, q, u, rfl, -⟩ := (hfound' path' x' w').1 hb
      exact .here _ _ (by omega)
  · rw [List.mem_append, hfound', List.mem_map]
    constructor
    · rintro (⟨⟨rest, x', w'⟩, hmem, heq⟩ | ⟨i, rest, q, u, rfl, hpart, hbinds⟩)
      · cases heq
        exact ⟨0, rest, p, v, rfl, (hfirst p v).2 ⟨rfl, rfl⟩, (hfound _ _ _).1 hmem⟩
      · exact ⟨i + 1, rest, q, u, by rw [Nat.add_assoc, Nat.add_comm 1], hpart, hbinds⟩
    · rintro ⟨i, rest, q, u, rfl, hpart, hbinds⟩
      cases i with
      | zero =>
        obtain ⟨rfl, rfl⟩ := (hfirst q u).1 hpart
        exact .inl ⟨(rest, x, w), (hfound _ _ _).2 hbinds, rfl⟩
      | succ i =>
        exact .inr ⟨i, rest, q, u, by rw [Nat.add_assoc, Nat.add_comm 1], hpart, hbinds⟩

theorem lookup_reverse {p : Pattern} {v : Value} (h : Enumerates (p.Binds v) bs) (x : String)
    (w : Value) : bs.reverse.lookup x = some w ↔ p.BindsLast v x w := by
  obtain ⟨found, rfl, hsorted, hfound⟩ := h
  have hlast (w : Value) (hw : (found.map Prod.snd).reverse.lookup x = some w) :
      p.BindsLast v x w := by
    obtain ⟨after, before, hsplit, hafter⟩ := List.lookup_eq_some_iff.1 hw
    rw [← List.map_reverse] at hsplit
    obtain ⟨right, rest, hrev, rfl, hrest⟩ := List.map_eq_append_iff.1 hsplit
    obtain ⟨⟨path, a⟩, left, rfl, rfl, -⟩ := List.map_eq_cons_iff.1 hrest
    rw [← List.pairwise_reverse, hrev] at hsorted
    refine ⟨path, (hfound _ _ _).1 (List.mem_reverse.1 (hrev ▸ by simp)), fun path' w' hbinds => ?_⟩
    have hmem := List.mem_reverse.2 ((hfound _ _ _).2 hbinds)
    rw [hrev] at hmem
    rcases List.mem_append.1 hmem with hright | hmem
    · have hne := hafter _ (List.mem_map_of_mem hright)
      simp at hne
    · rcases List.mem_cons.1 hmem with heq | hleft
      · cases heq
        exact .inl rfl
      · exact .inr (List.rel_of_pairwise_cons (List.pairwise_append.1 hsorted).2.1 hleft)
  refine ⟨hlast w, fun hw => ?_⟩
  obtain ⟨path, hbinds, -⟩ := id hw
  have hmem : (x, w) ∈ (found.map Prod.snd).reverse :=
    List.mem_reverse.2 (List.mem_map_of_mem (f := Prod.snd) ((hfound _ _ _).2 hbinds))
  obtain ⟨w', hw'⟩ := Option.isSome_iff_exists.1
    (List.lookup_isSome_iff.2 ⟨_, hmem, beq_self_eq_true x⟩)
  rw [hw', (hlast w' hw').unique hw]

end Enumerates

mutual

theorem enumerates_bindings? : ∀ (p : Pattern) (v : Value) (bs : List (String × Value)),
    p.bindings? v = some bs → Enumerates (p.Binds v) bs
  | .wildcard, v, bs => by
    intro h
    cases h
    exact .nil fun path x w hbinds => by rcases hbinds with _ | ⟨hpart, _⟩; cases hpart
  | .var name, v, bs => by
    intro h
    cases h
    refine ⟨[([], name, v)], rfl, List.pairwise_singleton _ _, fun path x w => ?_⟩
    constructor
    · intro hmem
      cases List.mem_singleton.1 hmem
      exact .var name v
    · intro hbinds
      rcases hbinds with _ | ⟨hpart, _⟩
      · exact List.mem_singleton_self _
      · cases hpart
  | .literal l, v, bs => by
    intro h
    rw [bindings?] at h
    split at h
    · cases h
      exact .nil fun path x w hbinds => by rcases hbinds with _ | ⟨hpart, _⟩; cases hpart
    · cases h
  | .constructor name ps, v, bs => by
    intro h
    cases v with
    | data type ctor vs =>
      rw [bindings?] at h
      split at h
      · refine (enumerates_bindingsAll? ps vs 0 bs h).congr fun path x w => ⟨?_, ?_⟩
        · rintro ⟨i, rest, q, u, rfl, ⟨hq, hu⟩, hbinds⟩
          exact .part (.constructor (by simpa using hq) (by simpa using hu)) hbinds
        · intro hbinds
          rcases hbinds with _ | ⟨hpart, hbinds⟩
          cases hpart with
          | constructor hq hu => exact ⟨_, _, _, _, by rw [Nat.zero_add], ⟨hq, hu⟩, hbinds⟩
      · cases h
    | _ => simp [bindings?] at h
  | .tuple ps, v, bs => by
    intro h
    cases v with
    | tuple vs =>
      rw [bindings?] at h
      refine (enumerates_bindingsAll? ps vs 0 bs h).congr fun path x w => ⟨?_, ?_⟩
      · rintro ⟨i, rest, q, u, rfl, ⟨hq, hu⟩, hbinds⟩
        exact .part (.tuple (by simpa using hq) (by simpa using hu)) hbinds
      · intro hbinds
        rcases hbinds with _ | ⟨hpart, hbinds⟩
        cases hpart with
        | tuple hq hu => exact ⟨_, _, _, _, by rw [Nat.zero_add], ⟨hq, hu⟩, hbinds⟩
    | _ => simp [bindings?] at h
  | .record ps, v, bs => by
    intro h
    cases v with
    | record fields =>
      rw [bindings?] at h
      refine (enumerates_bindingsFields? ps fields 0 bs h).congr fun path x w => ⟨?_, ?_⟩
      · rintro ⟨i, rest, q, u, rfl, ⟨name, hq, hu⟩, hbinds⟩
        exact .part (.record (by simpa using hq) hu) hbinds
      · intro hbinds
        rcases hbinds with _ | ⟨hpart, hbinds⟩
        cases hpart with
        | record hq hu => exact ⟨_, _, _, _, by rw [Nat.zero_add], ⟨_, hq, hu⟩, hbinds⟩
    | _ => simp [bindings?] at h

theorem enumerates_bindingsAll? :
    ∀ (ps : List Pattern) (vs : List Value) (k : Nat) (bs : List (String × Value)),
      bindingsAll? ps vs = some bs →
      Enumerates (InParts (fun i q u => ps[i]? = some q ∧ vs[i]? = some u) k) bs
  | [], vs, k, bs => by
    intro h
    cases vs with
    | nil =>
      cases h
      refine .nil fun path x w => ?_
      rintro ⟨i, rest, q, u, -, ⟨hq, -⟩, -⟩
      cases hq
    | cons v vs => cases h
  | p :: ps, vs, k, bs => by
    intro h
    cases vs with
    | nil => cases h
    | cons v vs =>
      obtain ⟨first, rest, hfirst, hrest, rfl⟩ := of_bindingsAll?_cons h
      refine .cons (fun q u => ?_) (enumerates_bindings? p v first hfirst)
        (enumerates_bindingsAll? ps vs (k + 1) rest hrest)
      simp [eq_comm]

theorem enumerates_bindingsFields? : ∀ (ps : List (String × Pattern))
    (fields : List (String × Value)) (k : Nat) (bs : List (String × Value)),
      bindingsFields? ps fields = some bs →
      Enumerates
        (InParts (fun i q u => ∃ name, ps[i]? = some (name, q) ∧ fields.lookup name = some u) k) bs
  | [], fields, k, bs => by
    intro h
    cases h
    refine .nil fun path x w => ?_
    rintro ⟨i, rest, q, u, -, ⟨name, hq, -⟩, -⟩
    cases hq
  | (name, p) :: ps, fields, k, bs => by
    intro h
    obtain ⟨v, first, rest, hv, hfirst, hrest, rfl⟩ := of_bindingsFields?_cons h
    refine .cons (fun q u => ?_) (enumerates_bindings? p v first hfirst)
      (enumerates_bindingsFields? ps fields (k + 1) rest hrest)
    constructor
    · rintro ⟨name', hq, hu⟩
      cases hq
      exact ⟨rfl, Option.some.inj (hu.symm.trans hv)⟩
    · rintro ⟨rfl, rfl⟩
      exact ⟨name, rfl, hv⟩

end

mutual

theorem names_bindings? : ∀ (p : Pattern) (v : Value) (bs : List (String × Value)),
    p.bindings? v = some bs → bs.map Prod.fst = p.vars
  | .wildcard, v, bs => by
    intro h
    cases h
    rfl
  | .var name, v, bs => by
    intro h
    cases h
    rfl
  | .literal l, v, bs => by
    intro h
    rw [bindings?] at h
    split at h <;> cases h
    rfl
  | .constructor name ps, v, bs => by
    intro h
    cases v with
    | data type ctor vs =>
      rw [bindings?] at h
      split at h
      · exact names_bindingsAll? ps vs bs h
      · cases h
    | _ => simp [bindings?] at h
  | .tuple ps, v, bs => by
    intro h
    cases v with
    | tuple vs => exact names_bindingsAll? ps vs bs h
    | _ => simp [bindings?] at h
  | .record ps, v, bs => by
    intro h
    cases v with
    | record fields => exact names_bindingsFields? ps fields bs h
    | _ => simp [bindings?] at h

theorem names_bindingsAll? : ∀ (ps : List Pattern) (vs : List Value) (bs : List (String × Value)),
    bindingsAll? ps vs = some bs → bs.map Prod.fst = varsAll ps
  | [], vs, bs => by
    intro h
    cases vs with
    | nil =>
      cases h
      rfl
    | cons v vs => cases h
  | p :: ps, vs, bs => by
    intro h
    cases vs with
    | nil => cases h
    | cons v vs =>
      obtain ⟨first, rest, hfirst, hrest, rfl⟩ := of_bindingsAll?_cons h
      rw [List.map_append, names_bindings? p v first hfirst, names_bindingsAll? ps vs rest hrest,
        varsAll]

theorem names_bindingsFields? :
    ∀ (ps : List (String × Pattern)) (fields : List (String × Value)) (bs : List (String × Value)),
      bindingsFields? ps fields = some bs → bs.map Prod.fst = varsFields ps
  | [], fields, bs => by
    intro h
    cases h
    rfl
  | (name, p) :: ps, fields, bs => by
    intro h
    obtain ⟨v, first, rest, hv, hfirst, hrest, rfl⟩ := of_bindingsFields?_cons h
    rw [List.map_append, names_bindings? p v first hfirst,
      names_bindingsFields? ps fields rest hrest, varsFields]

end

end Pattern

/-! ### The scope of an arm -/

/-- Scopes may have been added; everything that was there is as it was. -/
structure Machine.Grown (m m' : Machine) : Prop where
  rest : m' = { m with store := m'.store }
  size_le : m.store.scopes.size ≤ m'.store.scopes.size
  scopes : ∀ id < m.store.scopes.size, m'.store.scopes[id]? = m.store.scopes[id]?

namespace Machine.Grown

variable {m m₁ m₂ : Machine}

theorem refl (m : Machine) : m.Grown m := ⟨rfl, Nat.le_refl _, fun _ _ => rfl⟩

theorem trans (h : m.Grown m₁) (h' : m₁.Grown m₂) : m.Grown m₂ where
  rest := by rw [h'.rest, h.rest]
  size_le := Nat.le_trans h.size_le h'.size_le
  scopes id hid := (h'.scopes id (Nat.lt_of_lt_of_le hid h.size_le)).trans (h.scopes id hid)

theorem opened (m : Machine) (parent : ScopeId) (bindings : List (String × Value)) :
    m.Grown (m.opened parent bindings) where
  rest := rfl
  size_le := by simp [Machine.opened]
  scopes id hid := by simp [Machine.opened, Array.getElem?_push, Nat.ne_of_lt hid]

/-- A name has the value that it had, looked up from a scope that was there. -/
theorem getFrom (h : m.Grown m₁) (hlayered : m.store.Layered) {name : String}
    {fuel fuel' : Nat} {id : ScopeId} (hid : id < m.store.scopes.size) (hfuel : id < fuel)
    (hfuel' : id < fuel') :
    m₁.store.getFrom name fuel id = m.store.getFrom name fuel' id := by
  induction fuel generalizing fuel' id with
  | zero => exact absurd hfuel (Nat.not_lt_zero id)
  | succ fuel ih =>
    obtain ⟨fuel', rfl⟩ := Nat.exists_eq_succ_of_ne_zero (Nat.ne_zero_of_lt hfuel')
    rw [Store.getFrom, Store.getFrom, h.scopes id hid]
    cases hscope : m.store.scopes[id]? with
    | none => rfl
    | some scope =>
      cases hparent : scope.parent with
      | none => simp [hparent]
      | some parent =>
        have hlt : parent < id :=
          hlayered parent id (by simp [Store.IsParent, Store.parent?, hscope, hparent])
        have hget := ih (Nat.lt_trans hlt hid) (Nat.lt_of_lt_of_le hlt (Nat.le_of_lt_succ hfuel))
          (Nat.lt_of_lt_of_le hlt (Nat.le_of_lt_succ hfuel'))
        simp [hparent, hget]

end Machine.Grown

namespace Pattern

/-- The machine got the scope `inner`, below `scope`, that binds the variables of the pattern to the
parts of the value. Other names have in it the values that they had in `scope`. -/
structure Opens (p : Pattern) (v : Value) (scope inner : ScopeId) (m m' : Machine) : Prop where
  grown : m.Grown m'
  isNew : m.store.scopes.size ≤ inner
  isLast : m'.store.scopes.size = inner + 1
  parent : m'.store.IsParent scope inner
  names : ∀ x, x ∈ m'.store.localNames inner ↔ x ∈ p.vars
  values : ∀ x w, m'.store.binding? inner x = some w ↔ p.BindsLast v x w
  others : m.store.Layered → scope < m.store.scopes.size → ∀ x ∉ p.vars,
    m'.store.get? inner x = m.store.get? scope x

/-- The pattern is matched on machine `m₁`, which may have scopes of patterns that failed. -/
theorem opens_of_bindings? {p : Pattern} {v : Value} {bs : List (String × Value)}
    (h : p.bindings? v = some bs) (scope : ScopeId) {m m₁ : Machine} (hgrown : m.Grown m₁) :
    p.Opens v scope m₁.store.scopes.size m (m₁.opened scope (Assoc.insertAll bs [])) := by
  let inner := m₁.store.scopes.size
  let m₂ := m₁.opened scope (Assoc.insertAll bs [])
  have hgrown₂ : m.Grown m₂ := hgrown.trans (.opened m₁ scope _)
  have hscope : m₂.store.scopes[inner]? =
      some { parent := some scope, bindings := Assoc.insertAll bs [] } := by
    simp [m₂, inner, Machine.opened]
  have hlookup (x : String) : (Assoc.insertAll bs []).lookup x = bs.reverse.lookup x := by
    rw [Assoc.lookup_insertAll, List.lookup_nil, Option.or_none]
  have hbinding (x : String) : m₂.store.binding? inner x = bs.reverse.lookup x := by
    rw [Store.binding?, hscope, Option.bind_some, hlookup]
  have hnames (x : String) : (bs.reverse.lookup x).isSome = true ↔ x ∈ p.vars := by
    rw [List.lookup_isSome_iff, ← names_bindings? p v bs h]
    simp
  refine ⟨hgrown₂, hgrown.size_le, by simp [Machine.opened], ?_, fun x => ?_, fun x w => ?_,
    fun hlayered hlt x hx => ?_⟩
  · rw [Store.IsParent, Store.parent?, hscope]
    rfl
  · rw [Store.mem_localNames_iff, hbinding, hnames]
  · rw [hbinding]
    exact (enumerates_bindings? p v bs h).lookup_reverse x w
  · have hnone : bs.reverse.lookup x = none :=
      Option.not_isSome_iff_eq_none.1 fun hsome => hx ((hnames x).1 hsome)
    -- the walk goes on to `scope`, where nothing has changed
    rw [Store.get?, Store.getFrom, hscope]
    simp only [hlookup, hnone, Option.bind_some]
    exact hgrown₂.getFrom hlayered hlt (Nat.lt_of_lt_of_le hlt hgrown.size_le) (Nat.lt_succ_self _)

end Pattern

namespace Run

variable {s : Setting} {m : Machine}

/-- Trying an arm adds a scope with what the matcher bound, whether the pattern matches or not. -/
theorem evalArms_cons (a : Apply) (ctx : EvalCtx) (scope : ScopeId) (v : Value)
    (pattern : Spanned Pattern) (body : Spanned Expr) (arms : List Arm) :
    evalArms a ctx scope v (⟨pattern, body⟩ :: arms) s m =
      (if (pattern.node.bindings? v).isSome then evalNode a ctx m.store.scopes.size body
        else evalArms a ctx scope v arms)
        s (m.opened scope (Assoc.insertAll (pattern.node.written v) [])) := by
  have hnew : newScope scope s m = .done m.store.scopes.size (m.opened scope []) := rfl
  have hdefine : defineAll m.store.scopes.size (pattern.node.written v) s (m.opened scope []) =
      .done () (m.opened scope (Assoc.insertAll (pattern.node.written v) [])) := by
    rw [defineAll_eq, Machine.bindingAll_opened]
  rw [evalArms, bind_of_done hnew, Pattern.matchInto_eq, bind_assoc, bind_of_done hdefine]
  rfl

theorem evalArms_cases (a : Apply) (ctx : EvalCtx) (scope : ScopeId) (v : Value) (arms : List Arm)
    {m₁ : Machine} (hgrown : m.Grown m₁) :
    (∃ before pattern body after m₂, arms = before ++ ⟨pattern, body⟩ :: after ∧
      (∀ arm ∈ before, ¬ arm.pattern.node.Matches v) ∧ pattern.node.Matches v ∧
      pattern.node.Opens v scope (m₁.store.scopes.size + before.length) m m₂ ∧
      evalArms a ctx scope v arms s m₁ =
        evalNode a ctx (m₁.store.scopes.size + before.length) body s m₂) ∨
    (∀ arm ∈ arms, ¬ arm.pattern.node.Matches v) ∧ ∃ m₂, m.Grown m₂ ∧
      evalArms a ctx scope v arms s m₁ =
        .failed { cause := .patternMismatch ("no arm matches " ++ v.text) } m₂ := by
  induction arms generalizing m₁ with
  | nil => exact .inr ⟨by simp, m₁, hgrown, by rw [evalArms]; rfl⟩
  | cons arm arms ih =>
    obtain ⟨pattern, body⟩ := arm
    rw [evalArms_cons]
    by_cases hmatches : pattern.node.Matches v
    · obtain ⟨bs, hbs⟩ := Option.isSome_iff_exists.1 ((Pattern.isSome_bindings?_iff _ v).2 hmatches)
      rw [hbs, pattern.node.written_of_bindings? v bs hbs]
      exact .inl ⟨[], pattern, body, arms, _, rfl, by simp, hmatches,
        Pattern.opens_of_bindings? hbs scope hgrown, rfl⟩
    · have hnone : (pattern.node.bindings? v).isSome = false :=
        Bool.eq_false_iff.2 fun hsome => hmatches ((Pattern.isSome_bindings?_iff _ v).1 hsome)
      rw [hnone]
      rcases ih (hgrown.trans (.opened m₁ scope _)) with
        ⟨before, found, body', after, m₂, rfl, hbefore, hfound, hopens, hrun⟩ | ⟨hnever, hfailed⟩
      · let m' := m₁.opened scope (Assoc.insertAll (pattern.node.written v) [])
        have hinner : m'.store.scopes.size + before.length =
            m₁.store.scopes.size + (before.length + 1) := by
          simp [m', Machine.opened]
          omega
        rw [hinner] at hopens hrun
        exact .inl ⟨⟨pattern, body⟩ :: before, found, body', after, m₂, rfl,
          List.forall_mem_cons.2 ⟨hmatches, hbefore⟩, hfound, hopens, hrun⟩
      · exact .inr ⟨List.forall_mem_cons.2 ⟨hmatches, hnever⟩, hfailed⟩

end Run

/-- A choice goes on with the body of the first arm whose pattern matches, in a new scope that has
the variables of this pattern only; what failing patterns bound on the way is not seen there. It
fails where no pattern matches. Either way all that was there before is as it was. -/
theorem choice_takes_first_match (a : Apply) (ctx : EvalCtx) (scope : ScopeId) (span : Span)
    (scrutinee : Spanned Expr) (arms : List Arm) (s : Setting) (m m₁ : Machine) (v : Value)
    (hv : Run.settled a (evalNode a {} scope scrutinee) s m = .done v m₁) :
    (∃ before pattern body after m₂, arms = before ++ ⟨pattern, body⟩ :: after ∧
      (∀ arm ∈ before, ¬ arm.pattern.node.Matches v) ∧ pattern.node.Matches v ∧
      pattern.node.Opens v scope (m₁.store.scopes.size + before.length) m₁ m₂ ∧
      evalForm a ctx scope span (.choose scrutinee arms) s m =
        evalNode a ctx (m₁.store.scopes.size + before.length) body s m₂) ∨
    (∀ arm ∈ arms, ¬ arm.pattern.node.Matches v) ∧ ∃ m₂, m₁.Grown m₂ ∧
      evalForm a ctx scope span (.choose scrutinee arms) s m =
        .failed { cause := .patternMismatch ("no arm matches " ++ v.text) } m₂ := by
  have hform : evalForm a ctx scope span (.choose scrutinee arms) s m =
      evalArms a ctx scope v arms s m₁ := by
    rw [evalForm]
    exact Run.bind_of_done hv
  rw [hform]
  exact Run.evalArms_cases a ctx scope v arms (.refl m₁)

namespace Choosing

def number (n : Int64) : Spanned Expr := ⟨.lit (.int n), {}⟩

/-- `(1, (2, 3))` -/
def scrutinee : Spanned Expr := ⟨.tuple [number 1, ⟨.tuple [number 2, number 3], {}⟩], {}⟩

def value : Value := .tuple [.int 1, .tuple [.int 2, .int 3]]

/-- `(x, (y, 7))`, which fails after its variables got values. -/
def seven : Pattern := .tuple [.var "x", .tuple [.var "y", .literal (.int 7)]]

/-- `(x, (_, x))` -/
def twice : Pattern := .tuple [.var "x", .tuple [.wildcard, .var "x"]]

def body : Spanned Expr := ⟨.var "x", {}⟩

def arms : List Arm := [⟨⟨seven, {}⟩, number 0⟩, ⟨⟨twice, {}⟩, body⟩]

def start : Machine := { store := .fresh }

end Choosing

open Choosing in
/-- The first pattern leaves a scope behind that binds `x` and `y`. -/
theorem choice_takes_first_match_twice :
    ∃ m', twice.Opens value Store.global 2 start m' ∧
      m'.store.binding? 2 "x" = some (.int 3) ∧ m'.store.get? 2 "y" = none ∧
      evalForm (apply 0) {} Store.global {} (.choose scrutinee arms) {} start =
        evalNode (apply 0) {} 2 body {} m' := by
  have hseven : ¬ seven.Matches value := by decide
  have htwice : twice.Matches value := by decide
  have hlast : twice.BindsLast value "x" (.int 3) :=
    ((Pattern.enumerates_bindings? twice value _ rfl).lookup_reverse _ _).1 rfl
  rcases choice_takes_first_match (apply 0) {} Store.global {} scrutinee arms {} start start value
      rfl with ⟨before, pattern, body', after, m', harms, hbefore, hmatches, hopens, hrun⟩ |
      ⟨hnone, -⟩
  · rcases before with _ | ⟨arm, _ | ⟨arm', before⟩⟩
    · cases harms
      exact absurd hmatches hseven
    · cases harms
      have hy := hopens.others Store.Built.fresh.layered (by decide) "y" (by decide)
      exact ⟨m', hopens, (hopens.values _ _).2 hlast, hy.trans rfl, hrun⟩
    · simp [arms] at harms
  · exact absurd htwice (hnone ⟨⟨twice, {}⟩, body⟩ (by simp [arms]))

end TraitLang
