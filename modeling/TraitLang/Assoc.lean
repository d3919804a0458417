/-!
Association lists in insertion order: a key keeps its place when it gets a new value, and a new key
goes to the end. Lookup is `List.lookup`.
-/
namespace TraitLang.Assoc

variable {κ α : Type} [BEq κ]

def insert (k : κ) (v : α) : List (κ × α) → List (κ × α)
  | [] => [(k, v)]
  | (k', v') :: rest => if k == k' then (k', v) :: rest else (k', v') :: insert k v rest

def insertAll (new table : List (κ × α)) : List (κ × α) :=
  new.foldl (fun t (k, v) => insert k v t) table

def contains (k : κ) (table : List (κ × α)) : Bool := (table.lookup k).isSome

def keys (table : List (κ × α)) : List κ := table.map Prod.fst

theorem of_mem_insert {k : κ} {v : α} {e : κ × α} {table : List (κ × α)}
    (h : e ∈ insert k v table) : e.2 = v ∨ e ∈ table := by
  induction table with
  | nil => exact .inl (by rw [List.mem_singleton.1 h])
  | cons e' rest ih =>
    obtain ⟨k', v'⟩ := e'
    rw [insert] at h
    split at h
    · rcases List.mem_cons.1 h with rfl | h
      · exact .inl rfl
      · exact .inr (List.mem_cons_of_mem _ h)
    · rcases List.mem_cons.1 h with rfl | h
      · exact .inr List.mem_cons_self
      · exact (ih h).imp id (List.mem_cons_of_mem _)

theorem insertAll_append (new new' table : List (κ × α)) :
    insertAll (new ++ new') table = insertAll new' (insertAll new table) := by
  simp [insertAll, List.foldl_append]

variable [LawfulBEq κ]

theorem mem_of_lookup {k : κ} {v : α} {table : List (κ × α)} (h : table.lookup k = some v) :
    (k, v) ∈ table := by
  obtain ⟨before, after, rfl, -⟩ := List.lookup_eq_some_iff.1 h
  exact List.mem_append_right before List.mem_cons_self

theorem contains_eq_true_iff {k : κ} {table : List (κ × α)} :
    contains k table = true ↔ k ∈ keys table := by
  simp [contains, keys]

theorem lookup_insert (k j : κ) (v : α) (table : List (κ × α)) :
    (insert k v table).lookup j = if j == k then some v else table.lookup j := by
  induction table with
  | nil => by_cases h : j == k <;> simp [insert, List.lookup_cons, h]
  | cons e rest ih =>
    obtain ⟨k', v'⟩ := e
    by_cases hk : k == k'
    · obtain rfl := eq_of_beq hk
      by_cases hj : j == k <;> simp [insert, List.lookup_cons, hj]
    · by_cases hj : j == k'
      · obtain rfl := eq_of_beq hj
        have : (j == k) = false := by
          cases h : j == k with
          | false => rfl
          | true => exact absurd (by simp [eq_of_beq h]) hk
        simp [insert, hk, this]
      · simp [insert, hk, List.lookup_cons, hj, ih]

@[simp] theorem lookup_insert_self (k : κ) (v : α) (table : List (κ × α)) :
    (insert k v table).lookup k = some v := by simp [lookup_insert]

theorem lookup_insert_of_ne {k j : κ} (h : j ≠ k) (v : α) (table : List (κ × α)) :
    (insert k v table).lookup j = table.lookup j := by simp [lookup_insert, h]

/-- Giving a present key a new value moves no key. -/
theorem keys_insert_of_contains {k : κ} {table : List (κ × α)} (h : contains k table = true)
    (v : α) : keys (insert k v table) = keys table := by
  induction table with
  | nil => simp [contains] at h
  | cons e rest ih =>
    obtain ⟨k', v'⟩ := e
    by_cases hk : k == k'
    · simp [insert, hk, keys]
    · have := ih (by simpa [contains, List.lookup_cons, hk] using h)
      simpa [insert, hk, keys] using this

/-- A new key goes to the end. -/
theorem keys_insert_of_not_contains {k : κ} {table : List (κ × α)}
    (h : contains k table = false) (v : α) : keys (insert k v table) = keys table ++ [k] := by
  induction table with
  | nil => rfl
  | cons e rest ih =>
    obtain ⟨k', v'⟩ := e
    by_cases hk : k == k'
    · simp [contains, List.lookup_cons, hk] at h
    · have := ih (by simpa [contains, List.lookup_cons, hk] using h)
      simpa [insert, hk, keys] using this

omit [BEq κ] [LawfulBEq κ] in
theorem nodup_keys_singleton (k : κ) (v : α) : (keys [(k, v)]).Nodup :=
  List.nodup_cons.2 ⟨List.not_mem_nil, List.nodup_nil⟩

theorem nodup_keys_insert {table : List (κ × α)} (h : (keys table).Nodup) (k : κ) (v : α) :
    (keys (insert k v table)).Nodup := by
  cases hk : contains k table with
  | true => rwa [keys_insert_of_contains hk]
  | false =>
    rw [keys_insert_of_not_contains hk, List.nodup_append]
    refine ⟨h, nodup_keys_singleton k v, fun j hj i hi heq => ?_⟩
    rw [heq, List.mem_singleton.1 hi, ← contains_eq_true_iff, hk] at hj
    cases hj

theorem nodup_keys_insertAll (new : List (κ × α)) {table : List (κ × α)}
    (h : (keys table).Nodup) : (keys (insertAll new table)).Nodup := by
  induction new generalizing table with
  | nil => exact h
  | cons e new ih => exact ih (nodup_keys_insert h e.1 e.2)

/-- Of the new values of a key the last one counts. -/
theorem lookup_insertAll (new table : List (κ × α)) (j : κ) :
    (insertAll new table).lookup j = (new.reverse.lookup j).or (table.lookup j) := by
  induction new generalizing table with
  | nil => rfl
  | cons e new ih =>
    obtain ⟨k, v⟩ := e
    have hstep : insertAll ((k, v) :: new) table = insertAll new (insert k v table) := rfl
    rw [hstep, ih, lookup_insert, List.reverse_cons, List.lookup_append, Option.or_assoc]
    by_cases hj : j == k <;> simp [List.lookup_cons, hj]

theorem lookup_of_mem {table : List (κ × α)} (h : (keys table).Nodup) {e : κ × α} (he : e ∈ table) :
    table.lookup e.1 = some e.2 := by
  induction table with
  | nil => cases he
  | cons first rest ih =>
    obtain ⟨hfirst, hrest⟩ := List.nodup_cons.1 h
    rcases List.mem_cons.1 he with rfl | he
    · exact List.lookup_cons_self
    · have hne : e.1 ≠ first.1 := fun heq => hfirst (heq ▸ List.mem_map_of_mem he)
      rw [List.lookup_cons, beq_false_of_ne hne]
      exact ih hrest he

/-- Without repeated keys it does not matter from which end a key is looked for. -/
theorem lookup_reverse {table : List (κ × α)} (h : (keys table).Nodup) (j : κ) :
    table.reverse.lookup j = table.lookup j := by
  induction table with
  | nil => rfl
  | cons e rest ih =>
    obtain ⟨k, v⟩ := e
    obtain ⟨hk, hrest⟩ := List.nodup_cons.1 h
    rw [List.reverse_cons, List.lookup_append, ih hrest, List.lookup_cons]
    by_cases hj : j == k
    · have hnone : rest.lookup j = none := by
        rw [← Option.not_isSome_iff_eq_none, eq_of_beq hj]
        exact fun hsome => hk (contains_eq_true_iff.1 hsome)
      simp [hnone, hj, List.lookup_cons]
    · simp [hj, List.lookup_cons]

end TraitLang.Assoc
