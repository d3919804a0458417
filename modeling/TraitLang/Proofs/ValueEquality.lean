import Mathlib.Data.List.Forall2
import Mathlib.Data.List.Perm.Subperm
import TraitLang.Value.Equality

/-!
Equality of values as a relation. Values are the same if they have the same structure, with records
taken as maps and everything that has an identity taken for it. Main statement: comparison decides
this relation wherever no float takes part and no record has two fields of one name, so it is an
equivalence there.
-/
namespace TraitLang

namespace Assoc

variable {κ α : Type}

theorem length_keys (table : List (κ × α)) : (keys table).length = table.length :=
  List.length_map _

variable [BEq κ] [LawfulBEq κ] {as bs : List (κ × α)} {R : α → α → Prop}

theorem lookup_eq_none_of_not_mem {k : κ} (h : k ∉ keys as) : as.lookup k = none := by
  cases hk : as.lookup k with
  | none => rfl
  | some a => exact absurd (List.mem_map.2 ⟨(k, a), mem_of_lookup hk, rfl⟩) h

/-- Without repeated keys, their order does not matter to lookup. -/
theorem lookup_eq_of_perm (h : as.Perm bs) (has : (keys as).Nodup) (k : κ) :
    as.lookup k = bs.lookup k := by
  have hbs : (keys bs).Nodup := (h.map Prod.fst).nodup has
  cases hk : as.lookup k with
  | some a => exact (lookup_of_mem hbs (h.mem_iff.1 (mem_of_lookup hk))).symm
  | none =>
    refine (lookup_eq_none_of_not_mem fun hmem => ?_).symm
    rw [keys, ← (h.map Prod.fst).mem_iff, ← keys, ← contains_eq_true_iff, contains, hk] at hmem
    cases hmem

/-- As many keys, all of them in the second table: these are all its keys, since none comes twice.
So containment in one direction relates the tables as maps. -/
theorem forall_rel_iff (has : (keys as).Nodup) (hbs : (keys bs).Nodup) :
    (as.length = bs.length ∧ ∀ e ∈ as, ∃ b, bs.lookup e.1 = some b ∧ R e.2 b) ↔
      ∀ k, Option.Rel R (as.lookup k) (bs.lookup k) := by
  constructor
  · rintro ⟨hlength, hfields⟩ k
    have hsubset : keys as ⊆ keys bs := by
      intro j hj
      obtain ⟨e, he, rfl⟩ := List.mem_map.1 hj
      obtain ⟨b, hb, -⟩ := hfields e he
      exact List.mem_map.2 ⟨(e.1, b), mem_of_lookup hb, rfl⟩
    have hcount : (keys bs).length ≤ (keys as).length := by simp [length_keys, hlength]
    have hperm := (List.subperm_of_subset has hsubset).perm_of_length_le hcount
    cases ha : as.lookup k with
    | some a =>
      obtain ⟨b, hb, hab⟩ := hfields (k, a) (mem_of_lookup ha)
      rw [hb]
      exact .some hab
    | none =>
      have hk : k ∉ keys bs := by
        rw [← hperm.mem_iff, ← contains_eq_true_iff, contains, ha]
        simp
      rw [lookup_eq_none_of_not_mem hk]
      exact .none
  · intro h
    have hkeys (k : κ) : k ∈ keys as ↔ k ∈ keys bs := by
      rw [← contains_eq_true_iff, ← contains_eq_true_iff, contains, contains]
      have hrel := h k
      generalize as.lookup k = a, bs.lookup k = b at hrel
      cases hrel <;> rfl
    have hperm := (List.perm_ext_iff_of_nodup has hbs).2 hkeys
    refine ⟨by rw [← length_keys, ← length_keys, hperm.length_eq], fun e he => ?_⟩
    have hrel := h e.1
    rw [lookup_of_mem has he] at hrel
    generalize bs.lookup e.1 = b at hrel
    cases hrel with
    | some hab => exact ⟨_, rfl, hab⟩

end Assoc

namespace Scalar

variable {a b : Scalar}

/-- But for floats, comparison of scalars is equality. -/
theorem beq_iff_eq (ha : ∀ x, a ≠ float x) : (a == b) = true ↔ a = b := by
  -- scalars of two kinds are unequal both ways
  cases a with
  | float x => exact absurd rfl (ha x)
  | unit =>
    cases b with
    | unit => exact iff_of_true rfl rfl
    | _ => exact iff_of_false nofun nofun
  | int n =>
    cases b with
    | int k => exact (show (n == k) = true ↔ _ by simp)
    | _ => exact iff_of_false nofun nofun
  | bool p =>
    cases b with
    | bool q => exact (show (p == q) = true ↔ _ by simp)
    | _ => exact iff_of_false nofun nofun
  | char c =>
    cases b with
    | char d => exact (show (c == d) = true ↔ _ by simp)
    | _ => exact iff_of_false nofun nofun
  | str s =>
    cases b with
    | str t => exact (show (s == t) = true ↔ _ by simp)
    | _ => exact iff_of_false nofun nofun
  | range start stop =>
    cases b with
    | range first last => exact (show (start == first && stop == last) = true ↔ _ by simp)
    | _ => exact iff_of_false nofun nofun
  | typeRep t =>
    cases b with
    | typeRep u => exact (show (t == u) = true ↔ _ by simp)
    | _ => exact iff_of_false nofun nofun
  | operator op =>
    cases b with
    | operator op' => exact (show (op == op') = true ↔ _ by simp)
    | _ => exact iff_of_false nofun nofun
  | identity kind id =>
    cases b with
    | identity kind' id' => exact (show (kind == kind' && id == id') = true ↔ _ by simp)
    | _ => exact iff_of_false nofun nofun

end Scalar

namespace Value

section Parts

/-- The values that a comparison goes into. -/
def parts : Value → List Value
  | list items | tuple items | data _ _ items => items
  | record fields => fields.map Prod.snd
  | _ => []

theorem sizeOf_lt_of_mem_parts {v w : Value} (h : w ∈ v.parts) : sizeOf w < sizeOf v := by
  cases v with
  | list items | tuple items | data _ _ items =>
    have hitem : sizeOf w < sizeOf items := List.sizeOf_lt_of_mem h
    simp
    omega
  | record fields =>
    obtain ⟨⟨name, w⟩, he, rfl⟩ := List.mem_map.1 h
    have hfield := List.sizeOf_lt_of_mem he
    simp at hfield ⊢
    omega
  | _ => cases h

/-- What holds of a value if it holds of its parts holds of all. -/
theorem induction_on_parts {P : Value → Prop} (step : ∀ v, (∀ w ∈ v.parts, P w) → P v)
    (v : Value) : P v :=
  step v fun w _ => induction_on_parts step w
termination_by sizeOf v
decreasing_by exact sizeOf_lt_of_mem_parts (by assumption)

theorem mem_parts_of_lookup {fields : List (String × Value)} {name : String} {v : Value}
    (h : fields.lookup name = some v) : v ∈ (record fields).parts :=
  List.mem_map.2 ⟨(name, v), Assoc.mem_of_lookup h, rfl⟩

end Parts

/-- Values are the same: data by structure, records as maps from names to values, and what is
without parts if it is compared by the same: itself, or its identity. -/
inductive Same : Value → Value → Prop where
  | scalar {v w : Value} {a : Scalar} : v.scalar? = some a → w.scalar? = some a → Same v w
  | list {as bs : List Value} : List.Forall₂ Same as bs → Same (list as) (list bs)
  | tuple {as bs : List Value} : List.Forall₂ Same as bs → Same (tuple as) (tuple bs)
  | data (type ctor : String) {as bs : List Value} :
      List.Forall₂ Same as bs → Same (data type ctor as) (data type ctor bs)
  | record {as bs : List (String × Value)} :
      (∀ name, Option.Rel Same (as.lookup name) (bs.lookup name)) → Same (record as) (record bs)

namespace Same

variable {as bs cs : List Value} {a? b? c? : Option Value}

theorem refl (v : Value) : Same v v := by
  induction v using induction_on_parts with
  | step v ih =>
    cases hscalar : v.scalar? with
    | some a => exact .scalar hscalar hscalar
    | none =>
      cases v with
      | list items => exact .list (List.forall₂_same.2 ih)
      | tuple items => exact .tuple (List.forall₂_same.2 ih)
      | data type ctor items => exact .data type ctor (List.forall₂_same.2 ih)
      | record fields =>
        refine .record fun name => ?_
        cases hfield : fields.lookup name with
        | none => exact .none
        | some v => exact .some (ih v (mem_parts_of_lookup hfield))
      | _ => cases hscalar

section Symm

theorem symm_all (ih : ∀ v ∈ as, ∀ w, Same v w → Same w v) (h : List.Forall₂ Same as bs) :
    List.Forall₂ Same bs as := by
  induction h with
  | nil => exact .nil
  | cons hab _ ihs =>
    obtain ⟨hfirst, hrest⟩ := List.forall_mem_cons.1 ih
    exact .cons (hfirst _ hab) (ihs hrest)

theorem symm_field (ih : ∀ v, a? = some v → ∀ w, Same v w → Same w v) (h : Option.Rel Same a? b?) :
    Option.Rel Same b? a? := by
  cases h with
  | none => exact .none
  | some hab => exact .some (ih _ rfl _ hab)

theorem symm {v w : Value} (h : Same v w) : Same w v := by
  induction v using induction_on_parts generalizing w with
  | step v ih =>
    cases h with
    | scalar hv hw => exact .scalar hw hv
    | list h => exact .list (symm_all (fun v hv w => ih v hv) h)
    | tuple h => exact .tuple (symm_all (fun v hv w => ih v hv) h)
    | data type ctor h => exact .data type ctor (symm_all (fun v hv w => ih v hv) h)
    | record h =>
      exact .record fun name =>
        symm_field (fun v hv w => ih v (mem_parts_of_lookup hv)) (h name)

end Symm

section Trans

theorem trans_all (ih : ∀ v ∈ as, ∀ w x, Same v w → Same w x → Same v x)
    (h : List.Forall₂ Same as bs) (h' : List.Forall₂ Same bs cs) : List.Forall₂ Same as cs := by
  induction h generalizing cs with
  | nil => exact h'
  | cons hab _ ihs =>
    obtain ⟨hfirst, hrest⟩ := List.forall_mem_cons.1 ih
    cases h' with
    | cons hbc h' => exact .cons (hfirst _ _ hab hbc) (ihs hrest h')

theorem trans_field (ih : ∀ v, a? = some v → ∀ w x, Same v w → Same w x → Same v x)
    (h : Option.Rel Same a? b?) (h' : Option.Rel Same b? c?) : Option.Rel Same a? c? := by
  cases h with
  | none => exact h'
  | some hab =>
    cases h' with
    | some hbc => exact .some (ih _ rfl _ _ hab hbc)

theorem trans {v w x : Value} (h : Same v w) (h' : Same w x) : Same v x := by
  induction v using induction_on_parts generalizing w x with
  | step v ih =>
    cases h with
    | scalar hv hw =>
      cases h' with
      | scalar hw' hx =>
        rw [Option.some.inj (hw.symm.trans hw')] at hv
        exact .scalar hv hx
      | _ => cases hw
    | list h =>
      cases h' with
      | scalar hw _ => cases hw
      | list h' => exact .list (trans_all (fun v hv w x => ih v hv) h h')
    | tuple h =>
      cases h' with
      | scalar hw _ => cases hw
      | tuple h' => exact .tuple (trans_all (fun v hv w x => ih v hv) h h')
    | data type ctor h =>
      cases h' with
      | scalar hw _ => cases hw
      | data _ _ h' => exact .data type ctor (trans_all (fun v hv w x => ih v hv) h h')
    | record h =>
      cases h' with
      | scalar hw _ => cases hw
      | record h' =>
        exact .record fun name =>
          trans_field (fun v hv w x => ih v (mem_parts_of_lookup hv)) (h name) (h' name)

end Trans

end Same

/-- Comparison is exact: no float takes part in it, and no record has two fields of one name. -/
inductive Comparable : Value → Prop where
  | intro {v : Value} : (∀ x, v ≠ float x) →
      (∀ fields, v = record fields → (Assoc.keys fields).Nodup) →
      (∀ w ∈ v.parts, Comparable w) → Comparable v

section Comparing

variable {v w : Value}

theorem Comparable.part (h : v.Comparable) (hw : w ∈ v.parts) : w.Comparable := by
  obtain ⟨-, -, hparts⟩ := h
  exact hparts w hw

theorem Comparable.nodup {fields : List (String × Value)} (h : (record fields).Comparable) :
    (Assoc.keys fields).Nodup := by
  obtain ⟨-, hnodup, -⟩ := h
  exact hnodup fields rfl

theorem Comparable.scalar_ne_float {a : Scalar} (h : v.Comparable) (ha : v.scalar? = some a)
    (x : Float) : a ≠ .float x := by
  rintro rfl
  obtain ⟨hfloat, -, -⟩ := h
  cases v with
  | float y => exact hfloat y rfl
  | _ => cases ha

theorem equal_of_scalar {a : Scalar} (h : v.scalar? = some a) (w : Value) :
    (v == w) = w.scalar?.any (a == ·) := by
  have hequal : equal v w = scalarEqual v w := by
    cases v with
    | list _ | tuple _ | record _ | data _ _ _ => cases h
    | _ => simp only [equal]
  show equal v w = _
  rw [hequal, scalarEqual, h]
  cases w.scalar? <;> rfl

theorem equal_iff_same_of_scalar (hv : v.Comparable) {a : Scalar} (h : v.scalar? = some a) :
    (v == w) = true ↔ v.Same w := by
  have hexact (b : Scalar) := Scalar.beq_iff_eq (b := b) (hv.scalar_ne_float h)
  rw [equal_of_scalar h, Option.any_eq_true]
  constructor
  · rintro ⟨b, hw, hab⟩
    rw [← (hexact b).1 hab] at hw
    exact .scalar h hw
  · intro hsame
    cases hsame with
    | scalar hv' hw =>
      obtain rfl := Option.some.inj (h.symm.trans hv')
      exact ⟨a, hw, (hexact a).2 rfl⟩
    | _ => cases h

theorem equalAll_iff {as bs : List Value}
    (h : ∀ v ∈ as, ∀ w ∈ bs, (v == w) = true ↔ v.Same w) :
    equalAll as bs = true ↔ List.Forall₂ Same as bs := by
  induction as generalizing bs with
  | nil => cases bs <;> simp [equalAll]
  | cons v as ih =>
    cases bs with
    | nil => simp [equalAll]
    | cons w bs =>
      have hrest := ih fun v' hv w' hw =>
        h v' (List.mem_cons_of_mem v hv) w' (List.mem_cons_of_mem w hw)
      have hfirst : equal v w = true ↔ v.Same w := h v List.mem_cons_self w List.mem_cons_self
      rw [equalAll, Bool.and_eq_true, hfirst, hrest, List.forall₂_cons]

theorem equalFields_iff {as bs : List (String × Value)} :
    equalFields as bs = true ↔
      ∀ e ∈ as, ∃ w, bs.lookup e.1 = some w ∧ (e.2 == w) = true := by
  induction as with
  | nil => simp [equalFields]
  | cons e as ih =>
    rw [equalFields, Bool.and_eq_true, ih, List.forall_mem_cons, Option.any_eq_true]
    rfl

/-- The order of the fields does not matter, on either side and to whatever a record is compared. -/
theorem equal_record_of_perm {fields fields' : List (String × Value)} (h : fields.Perm fields')
    (hfields : (Assoc.keys fields).Nodup) (w : Value) :
    (record fields == w) = (record fields' == w) ∧
      (w == record fields) = (w == record fields') := by
  cases w with
  | record bs =>
    have hleft : equalFields fields bs = equalFields fields' bs := by
      rw [Bool.eq_iff_iff, equalFields_iff, equalFields_iff]
      exact forall_congr' fun e => imp_congr_left h.mem_iff
    have hright : equalFields bs fields = equalFields bs fields' := by
      rw [Bool.eq_iff_iff, equalFields_iff, equalFields_iff]
      simp only [Assoc.lookup_eq_of_perm h hfields]
    constructor
    · show (fields.length == bs.length && equalFields fields bs) = _
      rw [h.length_eq, hleft]
      rfl
    · show (bs.length == fields.length && equalFields bs fields) = _
      rw [h.length_eq, hright]
      rfl
  | _ => exact ⟨rfl, rfl⟩

theorem same_data_iff {type type' ctor ctor' : String} {as bs : List Value} :
    (data type ctor as).Same (data type' ctor' bs) ↔
      type = type' ∧ ctor = ctor' ∧ List.Forall₂ Same as bs := by
  constructor
  · intro h
    cases h with
    | scalar h _ => cases h
    | data _ _ h => exact ⟨rfl, rfl, h⟩
  · rintro ⟨rfl, rfl, h⟩
    exact .data type ctor h

/-- Records of distinct fields are compared as maps. -/
theorem equal_record_iff {as bs : List (String × Value)} (has : (Assoc.keys as).Nodup)
    (hbs : (Assoc.keys bs).Nodup)
    (h : ∀ v ∈ (record as).parts, ∀ w ∈ (record bs).parts, (v == w) = true ↔ v.Same w) :
    (record as == record bs) = true ↔ (record as).Same (record bs) := by
  have hequal : (record as == record bs) = true ↔
      as.length = bs.length ∧ ∀ e ∈ as, ∃ w, bs.lookup e.1 = some w ∧ e.2.Same w := by
    show (as.length == bs.length && equalFields as bs) = true ↔ _
    rw [Bool.and_eq_true, beq_iff_eq, equalFields_iff]
    refine and_congr_right fun _ => forall₂_congr fun e he => exists_congr fun w => ?_
    refine and_congr_right fun hw => ?_
    exact h e.2 (List.mem_map_of_mem he) w (mem_parts_of_lookup hw)
  rw [hequal, Assoc.forall_rel_iff has hbs]
  refine ⟨.record, fun hsame => ?_⟩
  cases hsame with
  | scalar h _ => cases h
  | record h => exact h

/-- Comparison decides whether values are the same. -/
theorem equal_iff_same (hv : v.Comparable) (hw : w.Comparable) : (v == w) = true ↔ v.Same w := by
  induction v using induction_on_parts generalizing w with
  | step v ih =>
    have hparts (v' : Value) (hv' : v' ∈ v.parts) (w' : Value) (hw' : w' ∈ w.parts) :=
      ih v' hv' (hv.part hv') (hw.part hw')
    cases hscalar : v.scalar? with
    | some a => exact equal_iff_same_of_scalar hv hscalar
    | none =>
      -- values of different form are neither equal nor the same
      cases v with
      | list as =>
        cases w with
        | list bs =>
          refine (equalAll_iff hparts).trans ⟨.list, fun h => ?_⟩
          cases h with
          | scalar h _ => cases h
          | list h => exact h
        | _ => exact iff_of_false nofun nofun
      | tuple as =>
        cases w with
        | tuple bs =>
          refine (equalAll_iff hparts).trans ⟨.tuple, fun h => ?_⟩
          cases h with
          | scalar h _ => cases h
          | tuple h => exact h
        | _ => exact iff_of_false nofun nofun
      | data type ctor as =>
        cases w with
        | data type' ctor' bs =>
          have hall : equalAll as bs = true ↔ List.Forall₂ Same as bs := equalAll_iff hparts
          rw [same_data_iff, ← hall, ← and_assoc]
          show (type == type' && ctor == ctor' && equalAll as bs) = true ↔ _
          simp
        | _ => exact iff_of_false nofun nofun
      | record as =>
        cases w with
        | record bs => exact equal_record_iff hv.nodup hw.nodup hparts
        | _ => exact iff_of_false nofun nofun
      | _ => cases hscalar

theorem equal_equivalence :
    Equivalence fun v w : { v : Value // v.Comparable } => (v.val == w.val) = true where
  refl v := (equal_iff_same v.2 v.2).2 (.refl v.val)
  symm {v w} h := (equal_iff_same w.2 v.2).2 ((equal_iff_same v.2 w.2).1 h).symm
  trans {v w x} h h' := (equal_iff_same v.2 x.2).2
    (((equal_iff_same v.2 w.2).1 h).trans ((equal_iff_same w.2 x.2).1 h'))

end Comparing

end Value

end TraitLang
