import TraitLang.Proofs.RegistryFrame

/-!
A default that became a method of an instance, and the calls that come after it. Main statement: no
method but the one that was filled in is resolved differently, and that one is resolved as before
or, where a call goes by the filled instance, to the new entry; of all dictionaries only that of the
filled instance may become available.
-/
namespace TraitLang

section Lists

variable {α β : Type}

/-- A list is sorted by taking its head to its place in the rest. -/
theorem mergeSort_cons_filter {le : α → α → Bool}
    (htrans : ∀ a b c, le a b = true → le b c = true → le a c = true)
    (htotal : ∀ a b, (le a b || le b a) = true) (a : α) (l : List α) :
    (a :: l).mergeSort le =
        (l.mergeSort le).filter (fun b => !le a b) ++ a :: (l.mergeSort le).filter (le a) ∧
      l.mergeSort le =
        (l.mergeSort le).filter (fun b => !le a b) ++ (l.mergeSort le).filter (le a) := by
  obtain ⟨l₁, l₂, hcons, hsort, hfront⟩ := List.mergeSort_cons htrans htotal a l
  have hsorted : (l₁ ++ a :: l₂).Pairwise fun x y => le x y = true :=
    hcons ▸ List.pairwise_mergeSort htrans htotal _
  have hback : ∀ b ∈ l₂, le a b = true := by
    intro b hb
    exact List.rel_of_pairwise_cons (List.pairwise_append.1 hsorted).2.1 hb
  have hfirst : (l₁ ++ l₂).filter (fun b => !le a b) = l₁ := by
    rw [List.filter_append, List.filter_eq_self.2 hfront, List.filter_eq_nil_iff.2, List.append_nil]
    intro b hb
    simp [hback b hb]
  have hsecond : (l₁ ++ l₂).filter (le a) = l₂ := by
    rw [List.filter_append, List.filter_eq_self.2 hback, List.filter_eq_nil_iff.2, List.nil_append]
    intro b hb
    simpa using hfront b hb
  rw [hcons, hsort, hfirst, hsecond]
  exact ⟨rfl, rfl⟩

/-- A stable sort does not mind what is left out before it. -/
theorem filter_mergeSort {le : α → α → Bool}
    (htrans : ∀ a b c, le a b = true → le b c = true → le a c = true)
    (htotal : ∀ a b, (le a b || le b a) = true) (p : α → Bool) (l : List α) :
    (l.mergeSort le).filter p = (l.filter p).mergeSort le := by
  induction l with
  | nil => simp
  | cons a l ih =>
    obtain ⟨hcons, hsort⟩ := mergeSort_cons_filter htrans htotal a l
    by_cases hp : p a = true
    · obtain ⟨hcons', -⟩ := mergeSort_cons_filter htrans htotal a (l.filter p)
      rw [List.filter_cons_of_pos hp, hcons', hcons, ← ih]
      simp [List.filter_filter, hp, Bool.and_comm]
    · rw [List.filter_cons_of_neg hp, ← ih, hcons, List.filter_append, List.filter_cons_of_neg hp,
        ← List.filter_append, ← hsort]

/-- The order by descending score. -/
theorem descending_trans (score : α → Nat) (a b c : α) (hab : decide (score b ≤ score a) = true)
    (hbc : decide (score c ≤ score b) = true) : decide (score c ≤ score a) = true := by
  simp only [decide_eq_true_eq] at *
  omega

theorem descending_total (score : α → Nat) (a b : α) :
    (decide (score b ≤ score a) || decide (score a ≤ score b)) = true := by
  simp only [Bool.or_eq_true, decide_eq_true_eq]
  omega

theorem filter_swap (p q : α → Bool) (l : List α) :
    (l.filter p).filter q = (l.filter q).filter p := by
  simp [List.filter_filter, Bool.and_comm]

/-- A search that gained one hit: it finds what it found before or the new hit. -/
theorem findSome?_gain {g g' : α → Option β} {key : α} {p : α → Bool}
    (hp : ∀ k, p k = false → g k = none) (hkey : p key = false)
    (hoff : ∀ k, k ≠ key → g' k = g k) (l : List α) :
    l.findSome? g' = (l.filter p).findSome? g ∨
      key ∈ l ∧ ∃ c, g' key = some c ∧ l.findSome? g' = some c := by
  induction l with
  | nil => exact .inl rfl
  | cons k l ih =>
    have later : l.findSome? g' = (l.filter p).findSome? g ∨
        key ∈ k :: l ∧ ∃ c, g' key = some c ∧ l.findSome? g' = some c :=
      ih.imp_right fun h => ⟨List.mem_cons_of_mem k h.1, h.2⟩
    by_cases heq : k = key
    · subst heq
      rw [List.filter_cons_of_neg (by simp [hkey]), List.findSome?_cons]
      cases hhit : g' k with
      | none => simpa [hhit] using later
      | some c => exact .inr ⟨List.mem_cons_self, c, rfl, rfl⟩
    · rw [List.findSome?_cons, hoff k heq]
      cases hpk : p k with
      | true =>
        rw [List.filter_cons_of_pos hpk, List.findSome?_cons]
        cases g k with
        | none => exact later
        | some c => exact .inl rfl
      | false =>
        rw [List.filter_cons_of_neg (by simp [hpk]), hp k hpk]
        exact later

end Lists

/-- A part of the key is the type at its place or a variable, or a part past the types is the
expected one. -/
inductive TypeKey.Meets (key : TypeKey) (types : List String) (contextName : Option String) :
    Prop where
  | within {i : Nat} {part type : String} : key.parts[i]? = some part → types[i]? = some type →
      part = type ∨ isTypeVariableName part = true → Meets key types contextName
  | past {i : Nat} {part : String} : types.length ≤ i → key.parts[i]? = some part →
      contextName = some part → Meets key types contextName

theorem TypeKey.meets_self {types : List String} (h : types ≠ []) (contextName : Option String) :
    (⟨types⟩ : TypeKey).Meets types contextName := by
  obtain ⟨type, rest, rfl⟩ := List.exists_cons_of_ne_nil h
  exact .within (i := 0) rfl rfl (.inl rfl)

/-- Only keys that meet the types or the expected type have a score. -/
theorem meets_of_scoreKey_pos {key : TypeKey} {types : List String} {contextName : Option String}
    (h : 0 < scoreKey key types contextName) : key.Meets types contextName := by
  unfold scoreKey at h
  dsimp only at h
  split at h
  · rename_i hboosted
    obtain ⟨part, hpart, hname⟩ := List.any_eq_true.1 hboosted
    obtain ⟨i, hi⟩ := List.mem_iff_getElem?.1 hpart
    rw [List.getElem?_drop] at hi
    exact .past (Nat.le_add_right _ i) hi (by simpa using hname)
  · obtain ⟨⟨part, type⟩, hmem, hmatches⟩ := List.countP_pos_iff.1 h
    obtain ⟨i, hi⟩ := List.mem_iff_getElem?.1 hmem
    obtain ⟨hpart, htype⟩ := List.getElem?_zip_eq_some.1 hi
    have heq : type = part ∨ isTypeVariableName part = true := by simpa using hmatches
    exact .within hpart htype (heq.imp_left Eq.symm)

namespace Registry

/-- The key starts with the name of a type or with what this is an alias of. -/
def StartsWith (r : Registry) (key : TypeKey) (ty : Ty) : Prop :=
  ∃ name, ty.constructorName = some name ∧
    (key.parts.head? = some name ∨
      ∃ target, r.aliasTarget? name = some target ∧ key.parts.head? = some target)

/-- The key stands for `named` itself or, if this is a single name, for what it is an alias of. -/
def StandsFor (r : Registry) (key named : TypeKey) : Prop :=
  named = key ∨
    ∃ name target, named.parts = [name] ∧ r.aliasTarget? name = some target ∧ key = .single target

/-- The instance has the method. -/
def Defines (r : Registry) (m : ClassMethod) (key : TypeKey) : Bool :=
  (r.lookup? m.traitName key m.method).isSome

/-- The method under a key if it takes the arguments. -/
def offer? (r : Registry) (m : ClassMethod) (args : List Value) (exact : Bool) (key : TypeKey) :
    Option Candidate := do
  let callee ← r.lookup? m.traitName key m.method
  if r.acceptsArgs callee args then some { key, callee, exact } else none

/-- The method under the types of the arguments themselves. -/
def exactCandidate? (r : Registry) (m : ClassMethod) (types : List String) (args : List Value) :
    Option Candidate :=
  if r.keyArity m.traitName = some types.length then r.firstAccepting? m args true [⟨types⟩]
  else none

variable {r : Registry} {m : ClassMethod} {args : List Value} {exact : Bool} {key : TypeKey}

theorem argumentCandidate?_eq (r : Registry) (m : ClassMethod) (types : List String)
    (args : List Value) (contextName : Option String) :
    r.argumentCandidate? m types args contextName =
      (r.exactCandidate? m types args).or
        (r.firstAccepting? m args false (r.scoredKeys m.traitName types contextName)) := by
  unfold argumentCandidate? exactCandidate?
  dsimp only
  split
  · rename_i found hexact
    rw [hexact, Option.some_or]
  · rename_i hexact
    rw [hexact, Option.none_or]

theorem firstAccepting?_eq (r : Registry) (m : ClassMethod) (args : List Value) (exact : Bool)
    (keys : List TypeKey) :
    r.firstAccepting? m args exact keys = keys.findSome? (r.offer? m args exact) := rfl

theorem offer?_of_not_defines (h : r.Defines m key = false) :
    r.offer? m args exact key = none := by
  have hnone : r.lookup? m.traitName key m.method = none := by simpa [Defines] using h
  simp [offer?, hnone]

/-- Instances without the method do not matter. -/
theorem firstAccepting?_filter (r : Registry) (m : ClassMethod) (args : List Value) (exact : Bool)
    (keys : List TypeKey) :
    r.firstAccepting? m args exact (keys.filter (r.Defines m)) =
      r.firstAccepting? m args exact keys := by
  simp only [firstAccepting?_eq]
  induction keys with
  | nil => rfl
  | cons k keys ih =>
    rw [List.findSome?_cons]
    cases hk : r.Defines m k with
    | true => rw [List.filter_cons_of_pos hk, List.findSome?_cons, ih]
    | false => rw [List.filter_cons_of_neg (by simp [hk]), offer?_of_not_defines hk, ih]

theorem head?_of_mem_keysNamed {traitName name : String} (h : key ∈ r.keysNamed traitName name) :
    key.parts.head? = some name := by
  rcases List.mem_cons.1 h with rfl | h
  · rfl
  · have hfilter := (List.mem_filter.1 h).2
    simp only [Bool.and_eq_true, beq_iff_eq] at hfilter
    exact hfilter.2

theorem meets_of_mem_scoredKeys {traitName : String} {types : List String}
    {contextName : Option String} (h : key ∈ r.scoredKeys traitName types contextName) :
    key.Meets types contextName := by
  obtain ⟨⟨score, key'⟩, hmem, rfl⟩ := List.mem_map.1 h
  rw [List.mem_mergeSort, List.mem_filter, List.mem_map] at hmem
  obtain ⟨⟨key'', -, heq⟩, hpos⟩ := hmem
  cases heq
  exact meets_of_scoreKey_pos (by simpa using hpos)

theorem not_defines_of_no_instances (h : r.instanceKeys m.traitName = []) (key : TypeKey) :
    r.Defines m key = false := by
  have htable : r.table m.traitName = [] := by simpa [instanceKeys, Assoc.keys] using h
  simp [Defines, lookup?, htable]

theorem firstAccepting?_of_no_instances (h : r.instanceKeys m.traitName = []) (args : List Value)
    (exact : Bool) (keys : List TypeKey) : r.firstAccepting? m args exact keys = none := by
  rw [firstAccepting?_eq, List.findSome?_eq_none_iff]
  exact fun key _ => offer?_of_not_defines (not_defines_of_no_instances h key)

/-- Leaving instances out before or after they are sorted by their scores. -/
theorem filter_scoredKeys (r : Registry) (traitName : String) (types : List String)
    (contextName : Option String) (p : TypeKey → Bool) :
    (r.scoredKeys traitName types contextName).filter p =
      (((((r.instanceKeys traitName).filter p).map fun key =>
        (scoreKey key types contextName, key)).filter fun e => 0 < e.1).mergeSort
          fun x y => y.1 ≤ x.1).map Prod.snd := by
  unfold scoredKeys
  rw [List.filter_map, filter_mergeSort (descending_trans Prod.fst) (descending_total Prod.fst),
    filter_swap, List.filter_map]
  rfl

section AddMethod

variable {a b : ClassMethod} {v : Value}

theorem agreeOnNames_addMethod (r : Registry) (traitName : String) (key : TypeKey)
    (method : String) (v : Value) : (r.addMethod traitName key method v).AgreeOnNames r :=
  ⟨fun _ => rfl, fun _ => rfl⟩

/-- The instances that have a method already stay the same, in the same order. -/
theorem definers_addMethod (r : Registry) (a b : ClassMethod) (key : TypeKey) (v : Value) :
    ((r.addMethod a.traitName key a.method v).instanceKeys b.traitName).filter (r.Defines b) =
      (r.instanceKeys b.traitName).filter (r.Defines b) := by
  rw [instanceKeys_addMethod]
  split
  · rename_i hnew
    have hnot : r.Defines b key = false := by
      have hnone : (r.table b.traitName).lookup key = none := by
        simpa [hasInstance, Assoc.contains, ← hnew.1] using hnew.2
      simp [Defines, lookup?, hnone]
    simp [hnot]
  · rfl

theorem keysNamed_addMethod (r : Registry) (a b : ClassMethod) (key : TypeKey) (v : Value)
    (name : String) :
    ((r.addMethod a.traitName key a.method v).keysNamed b.traitName name).filter (r.Defines b) =
      (r.keysNamed b.traitName name).filter (r.Defines b) := by
  rw [keysNamed, keysNamed, List.filter_cons, List.filter_cons, filter_swap, definers_addMethod,
    filter_swap]

theorem scoredKeys_addMethod (r : Registry) (a b : ClassMethod) (key : TypeKey) (v : Value)
    (types : List String) (contextName : Option String) :
    ((r.addMethod a.traitName key a.method v).scoredKeys b.traitName types contextName).filter
        (r.Defines b) =
      (r.scoredKeys b.traitName types contextName).filter (r.Defines b) := by
  rw [filter_scoredKeys, filter_scoredKeys, definers_addMethod]

theorem keyArity_addMethod (h : r.instanceKeys b.traitName ≠ []) (key : TypeKey) (v : Value) :
    (r.addMethod a.traitName key a.method v).keyArity b.traitName = r.keyArity b.traitName := by
  obtain ⟨k, keys, hkeys⟩ := List.exists_cons_of_ne_nil h
  rw [keyArity, keyArity, instanceKeys_addMethod]
  split <;> simp [hkeys]

/-! ### Other methods -/

theorem lookup?_addMethod_of_other (hb : ¬ (b.traitName = a.traitName ∧ b.method = a.method))
    (r : Registry) (key : TypeKey) (v : Value) (key' : TypeKey) :
    (r.addMethod a.traitName key a.method v).lookup? b.traitName key' b.method =
      r.lookup? b.traitName key' b.method := by
  rw [lookup?_addMethod, if_neg fun h => hb ⟨h.1, h.2.2⟩]

theorem firstAccepting?_of_other (hb : ¬ (b.traitName = a.traitName ∧ b.method = a.method))
    {keys keys' : List TypeKey} (hkeys : keys'.filter (r.Defines b) = keys.filter (r.Defines b))
    (key : TypeKey) (v : Value) (args : List Value) (exact : Bool) :
    (r.addMethod a.traitName key a.method v).firstAccepting? b args exact keys' =
      r.firstAccepting? b args exact keys := by
  rw [← firstAccepting?_filter r, ← hkeys, firstAccepting?_filter]
  simp only [firstAccepting?, lookup?_addMethod_of_other hb,
    (agreeOnNames_addMethod r a.traitName key a.method v).acceptsArgs]

theorem contextKeys_addMethod (r : Registry) (a b : ClassMethod) (key : TypeKey) (v : Value)
    (names : List String) :
    (names.flatMap
        ((r.addMethod a.traitName key a.method v).keysNamed b.traitName)).filter (r.Defines b) =
      (names.flatMap (r.keysNamed b.traitName)).filter (r.Defines b) := by
  rw [List.filter_flatMap, List.filter_flatMap]
  simp only [keysNamed_addMethod]

theorem contextCandidate?_of_other (hb : ¬ (b.traitName = a.traitName ∧ b.method = a.method))
    (r : Registry) (key : TypeKey) (v : Value) (expected : Ty) (args : List Value) :
    (r.addMethod a.traitName key a.method v).contextCandidate? b expected args =
      r.contextCandidate? b expected args := by
  unfold contextCandidate?
  cases expected.constructorName with
  | none => rfl
  | some name => exact firstAccepting?_of_other hb (contextKeys_addMethod r a b key v _) key v _ _

theorem argumentCandidate?_of_other (hb : ¬ (b.traitName = a.traitName ∧ b.method = a.method))
    (r : Registry) (key : TypeKey) (v : Value) (types : List String) (args : List Value)
    (contextName : Option String) :
    (r.addMethod a.traitName key a.method v).argumentCandidate? b types args contextName =
      r.argumentCandidate? b types args contextName := by
  have hscored : (r.addMethod a.traitName key a.method v).firstAccepting? b args false
        ((r.addMethod a.traitName key a.method v).scoredKeys b.traitName types contextName) =
      r.firstAccepting? b args false (r.scoredKeys b.traitName types contextName) :=
    firstAccepting?_of_other hb (scoredKeys_addMethod r a b key v types contextName) key v args
      false
  have hexact : (r.addMethod a.traitName key a.method v).firstAccepting? b args true [⟨types⟩] =
      r.firstAccepting? b args true [⟨types⟩] :=
    firstAccepting?_of_other hb rfl key v args true
  unfold argumentCandidate?
  rw [hscored, hexact]
  by_cases hempty : r.instanceKeys b.traitName = []
  · -- without instances there is nothing to find under any key
    have hnone := firstAccepting?_of_no_instances hempty args true [⟨types⟩]
    simp [hnone]
  · rw [keyArity_addMethod hempty]

/-! ### The method itself -/

/-- A search finds what it found before or, if it comes by, the new entry. -/
theorem firstAccepting?_gains (habsent : r.Defines b key = false) {keys keys' : List TypeKey}
    (hkeys : keys'.filter (r.Defines b) = keys.filter (r.Defines b)) (v : Value)
    (args : List Value) (exact : Bool) :
    (r.addMethod b.traitName key b.method v).firstAccepting? b args exact keys' =
        r.firstAccepting? b args exact keys ∨
      key ∈ keys' ∧ (r.addMethod b.traitName key b.method v).firstAccepting? b args exact keys' =
        some { key, callee := v, exact } := by
  have hoff : ∀ k, k ≠ key →
      (r.addMethod b.traitName key b.method v).offer? b args exact k = r.offer? b args exact k := by
    intro k hk
    simp [offer?, lookup?_addMethod, hk,
      (agreeOnNames_addMethod r b.traitName key b.method v).acceptsArgs]
  have hundefined : ∀ k, r.Defines b k = false → r.offer? b args exact k = none :=
    fun k => offer?_of_not_defines
  rcases findSome?_gain hundefined habsent hoff keys' with hsame | ⟨hmem, c, hc, hnew⟩
  · left
    rw [firstAccepting?_eq, hsame, hkeys]
    exact firstAccepting?_filter r b args exact keys
  · right
    refine ⟨hmem, hnew.trans ?_⟩
    simp only [offer?, lookup?_addMethod, and_self, if_true, Option.bind_eq_bind,
      Option.bind_some] at hc
    split at hc
    · exact hc.symm
    · cases hc

theorem contextCandidate?_gains (habsent : r.Defines b key = false) (v : Value) (expected : Ty)
    (args : List Value) :
    (r.addMethod b.traitName key b.method v).contextCandidate? b expected args =
        r.contextCandidate? b expected args ∨
      r.StartsWith key expected ∧
        (r.addMethod b.traitName key b.method v).contextCandidate? b expected args =
          some { key, callee := v, exact := true } := by
  unfold contextCandidate?
  cases hname : expected.constructorName with
  | none => exact .inl rfl
  | some name =>
    have hkeys := contextKeys_addMethod r b b key v
    refine (firstAccepting?_gains habsent (hkeys _) v args true).imp_right
      fun hnew => ⟨⟨name, hname, ?_⟩, hnew.2⟩
    obtain ⟨start, hstart, hkey⟩ := List.mem_flatMap.1 hnew.1
    have hhead := head?_of_mem_keysNamed hkey
    rcases List.mem_cons.1 hstart with rfl | hstart
    · exact .inl hhead
    · exact .inr ⟨start, Option.mem_toList.1 hstart, hhead⟩

theorem exact_of_firstAccepting? {keys : List TypeKey} {found : Candidate}
    (h : r.firstAccepting? m args exact keys = some found) : found.exact = exact := by
  obtain ⟨k, -, hoffer⟩ := List.exists_of_findSome?_eq_some h
  obtain ⟨callee, -, hfound⟩ := Option.bind_eq_some_iff.1 hoffer
  split at hfound
  · cases hfound
    rfl
  · cases hfound

theorem Offers.ne_of_absent {found : Candidate} (h : r.Offers m args found)
    (habsent : r.Defines m key = false) : found.key ≠ key := by
  rintro rfl
  simp [Defines, h.lookup] at habsent

/-- A method under the types of the arguments themselves stays; the new one may be there only if
there was none. -/
theorem exactCandidate?_gains (habsent : r.Defines b key = false) (v : Value)
    (types : List String) (args : List Value) :
    (r.addMethod b.traitName key b.method v).exactCandidate? b types args =
        r.exactCandidate? b types args ∨
      key = ⟨types⟩ ∧ r.exactCandidate? b types args = none ∧
        (r.addMethod b.traitName key b.method v).exactCandidate? b types args =
          some { key, callee := v, exact := true } := by
  have hgains := @firstAccepting?_gains r key b habsent [⟨types⟩] [⟨types⟩] rfl v args true
  by_cases hempty : r.instanceKeys b.traitName = []
  · have hnone := firstAccepting?_of_no_instances hempty args true [⟨types⟩]
    rw [hnone] at hgains
    simp only [exactCandidate?, hnone, ite_self]
    split
    · exact hgains.imp id fun hnew => ⟨List.mem_singleton.1 hnew.1, trivial, hnew.2⟩
    · exact .inl rfl
  · unfold exactCandidate?
    rw [keyArity_addMethod hempty]
    split
    · refine hgains.imp id fun hnew => ?_
      have hkey : key = ⟨types⟩ := List.mem_singleton.1 hnew.1
      refine ⟨hkey, ?_, hnew.2⟩
      simp [firstAccepting?_eq, offer?_of_not_defines (hkey ▸ habsent)]
    · exact .inl rfl

/-- The search by the types of the arguments finds what it found before or the new entry, which
meets the types and does not overtake a method under these very types. -/
theorem argumentCandidate?_gains (habsent : r.Defines b key = false) (v : Value)
    {types : List String} (htypes : types ≠ []) (args : List Value) (contextName : Option String) :
    (r.addMethod b.traitName key b.method v).argumentCandidate? b types args contextName =
        r.argumentCandidate? b types args contextName ∨
      key.Meets types contextName ∧
      (∃ exact, (r.addMethod b.traitName key b.method v).argumentCandidate? b types args
        contextName = some { key, callee := v, exact }) ∧
      ∀ found, r.argumentCandidate? b types args contextName = some found →
        found.exact = false := by
  have hscored := firstAccepting?_gains habsent
    (scoredKeys_addMethod r b b key v types contextName) v args false
  rw [argumentCandidate?_eq, argumentCandidate?_eq]
  cases hexact : r.exactCandidate? b types args with
  | some found =>
    rcases exactCandidate?_gains habsent v types args with hsame | ⟨-, hnone, -⟩
    · rw [hsame, hexact]
      exact .inl rfl
    · rw [hnone] at hexact
      cases hexact
  | none =>
    have hinexact : ∀ found, r.firstAccepting? b args false
        (r.scoredKeys b.traitName types contextName) = some found → found.exact = false :=
      fun found hfound => exact_of_firstAccepting? hfound
    rcases exactCandidate?_gains habsent v types args with hsame | ⟨hkey, -, hnew⟩
    · rw [hsame, hexact]
      exact hscored.imp id fun hnew =>
        ⟨meets_of_mem_scoredKeys hnew.1, ⟨false, hnew.2⟩, hinexact⟩
    · rw [hnew]
      exact .inr ⟨hkey ▸ TypeKey.meets_self htypes contextName, ⟨true, rfl⟩, hinexact⟩

theorem lookupWithAlias?_of_other (hb : ¬ (b.traitName = a.traitName ∧ b.method = a.method))
    (r : Registry) (key : TypeKey) (v : Value) (key' : TypeKey) :
    (r.addMethod a.traitName key a.method v).lookupWithAlias? b.traitName key' b.method =
      r.lookupWithAlias? b.traitName key' b.method := by
  simp only [lookupWithAlias?, lookup?_addMethod_of_other hb,
    (agreeOnNames_addMethod r a.traitName key a.method v).aliasTarget?]

theorem lookupWithAlias?_gains (r : Registry) (b : ClassMethod) (key : TypeKey) (v : Value)
    (key' : TypeKey) :
    (r.addMethod b.traitName key b.method v).lookupWithAlias? b.traitName key' b.method =
        r.lookupWithAlias? b.traitName key' b.method ∨
      r.StandsFor key key' ∧
        (r.addMethod b.traitName key b.method v).lookupWithAlias? b.traitName key' b.method =
          some v := by
  have hlookup (k : TypeKey) : (r.addMethod b.traitName key b.method v).lookup? b.traitName k
      b.method = if k = key then some v else r.lookup? b.traitName k b.method := by
    simp [lookup?_addMethod]
  simp only [lookupWithAlias?, hlookup,
    (agreeOnNames_addMethod r b.traitName key b.method v).aliasTarget?]
  by_cases hkey : key' = key
  · exact .inr ⟨.inl hkey, by simp [hkey]⟩
  · rw [if_neg hkey]
    cases r.lookup? b.traitName key' b.method with
    | some found => exact .inl rfl
    | none =>
      rcases hparts : key'.parts with _ | ⟨name, _ | ⟨name', names⟩⟩
      · exact .inl rfl
      · cases halias : r.aliasTarget? name with
        | none => simp [halias]
        | some target =>
          by_cases htarget : TypeKey.single target = key
          · exact .inr
              ⟨.inr ⟨name, target, hparts, halias, htarget.symm⟩, by simp [halias, htarget]⟩
          · exact .inl (by simp [halias, htarget])
      · exact .inl rfl

end AddMethod

end Registry

/-- The candidate that wins, if any. -/
def ClassMethod.preferred? (m : ClassMethod) (hasArgs : Bool) (types : List String)
    (context : Option (Ty × ContextSource)) (byContext byArgument : Option Candidate) :
    Option Candidate :=
  match m.choose hasArgs types context byContext byArgument with
  | .context => byContext
  | .argument => byArgument
  | .neither => none

namespace ClassMethod

section Preferred

variable {m : ClassMethod} {hasArgs : Bool} {types : List String}
  {context : Option (Ty × ContextSource)} {c a : Option Candidate}

/-- The expected type is preferred to the types of the arguments. -/
def PrefersContext (m : ClassMethod) (types : List String) (expected : Ty × ContextSource)
    (x y : Candidate) : Prop :=
  wrapsArgument expected.1 types = true ∨
    y.exact = false ∧ (m.arity = 0 ∨ ContextSource.isAnnotation expected.2 = true ∧ x.key ≠ y.key)

theorem preferred?_show (h : m.traitName = "Show") :
    m.preferred? hasArgs types context c a = a.or (if hasArgs then none else c) := by
  unfold preferred? choose
  rw [if_pos (by simp [h])]
  cases a <;> cases c <;> cases hasArgs <;> rfl

theorem preferred?_contextOnly (hshow : m.traitName ≠ "Show") (h : m.isContextOnly = true) :
    m.preferred? hasArgs types context c a = c := by
  unfold preferred? choose
  rw [if_neg (by simp [hshow]), if_pos h]
  cases c <;> rfl

theorem preferred?_one (hshow : m.traitName ≠ "Show") (h : m.isContextOnly = false)
    (hone : c = none ∨ a = none) : m.preferred? hasArgs types context c a = c.or a := by
  unfold preferred? choose
  rw [if_neg (by simp [hshow]), if_neg (by simp [h])]
  cases c <;> cases a <;> simp_all

theorem preferred?_both (hshow : m.traitName ≠ "Show") (h : m.isContextOnly = false)
    (hasArgs : Bool) (types : List String) (expected : Ty × ContextSource) (x y : Candidate) :
    (m.PrefersContext types expected x y ∧
        m.preferred? hasArgs types (some expected) (some x) (some y) = some x) ∨
      ¬ m.PrefersContext types expected x y ∧
        m.preferred? hasArgs types (some expected) (some x) (some y) = some y := by
  obtain ⟨ty, source⟩ := expected
  unfold preferred? choose PrefersContext
  rw [if_neg (by simp [hshow]), if_neg (by simp [h])]
  grind

/-- The winner has the method of the former winner if there was one, or, where `filled` holds, the
new method. -/
def Prevails (filled : Prop) (v : Value) (before after : Option Candidate) : Prop :=
  (after = none ∧ before = none) ∨
    ∃ w, after = some w ∧ (filled ∧ w.callee = v ∨ ∃ u, before = some u ∧ w.callee = u.callee)

theorem Prevails.refl (filled : Prop) (v : Value) (before : Option Candidate) :
    Prevails filled v before before := by
  cases before with
  | none => exact .inl ⟨rfl, rfl⟩
  | some u => exact .inr ⟨u, rfl, .inr ⟨u, rfl, rfl⟩⟩

theorem Prevails.imp {filled filled' : Prop} {v : Value} {before after : Option Candidate}
    (h : Prevails filled v before after) (himp : filled → filled') :
    Prevails filled' v before after :=
  h.imp_right fun hafter => hafter.imp fun _ hw => ⟨hw.1, hw.2.imp_left fun hnew =>
    ⟨himp hnew.1, hnew.2⟩⟩

theorem Prevails.of_new {filled : Prop} {v : Value} {before : Option Candidate} {w : Candidate}
    (hfilled : filled) (h : w.callee = v) : Prevails filled v before (some w) :=
  .inr ⟨w, rfl, .inl ⟨hfilled, h⟩⟩

section General

variable {c' a' : Option Candidate} {key : TypeKey} {v : Value} {exact : Bool} {filled : Prop}

/-- Only the search by the types of the arguments gained the entry. -/
theorem preferred?_gains_argument (hfilled : filled) (hshow : m.traitName ≠ "Show")
    (honly : m.isContextOnly = false)
    (hcontext : context = none → c = none)
    (hsame : ∀ x y, c = some x → a = some y → x.key = y.key → x.callee = y.callee)
    (hinexact : ∀ y, a = some y → y.exact = false) :
    Prevails filled v (m.preferred? hasArgs types context c a)
      (m.preferred? hasArgs types context c (some { key, callee := v, exact })) := by
  cases c with
  | none =>
    have hwins : m.preferred? hasArgs types context none (some { key, callee := v, exact }) =
        some { key, callee := v, exact } := preferred?_one hshow honly (.inl rfl)
    rw [hwins]
    exact .of_new hfilled rfl
  | some x =>
    cases context with
    | none => cases hcontext rfl
    | some expected =>
      rcases preferred?_both hshow honly hasArgs types expected x { key, callee := v, exact } with
        ⟨hprefers, hwins⟩ | ⟨-, hwins⟩
      · rw [hwins]
        cases a with
        | none =>
          rw [preferred?_one hshow honly (.inr rfl)]
          exact .refl filled v _
        | some y =>
          rcases preferred?_both hshow honly hasArgs types expected x y with
            ⟨-, hwon⟩ | ⟨hbefore, hwon⟩
          · rw [hwon]
            exact .refl filled v _
          · -- the former winner is under the key of the new one
            have hkeys : x.key = y.key := by
              have := hinexact y rfl
              unfold PrefersContext at hprefers hbefore
              grind
            rw [hwon]
            exact .inr ⟨x, rfl, .inr ⟨y, rfl, hsame x y rfl rfl hkeys⟩⟩
      · rw [hwins]
        exact .of_new hfilled rfl

/-- The search by the expected type gained the entry. -/
theorem preferred?_gains_context {expected : Ty × ContextSource} (hfilled : filled)
    (hshow : m.traitName ≠ "Show") (honly : m.isContextOnly = false)
    (hkey : ∀ y, a = some y → y.key ≠ key) :
    Prevails filled v (m.preferred? hasArgs types (some expected) c a)
      (m.preferred? hasArgs types (some expected) (some { key, callee := v, exact }) a) := by
  cases a with
  | none =>
    have hwins :
        m.preferred? hasArgs types (some expected) (some { key, callee := v, exact }) none =
          some { key, callee := v, exact } := preferred?_one hshow honly (.inr rfl)
    rw [hwins]
    exact .of_new hfilled rfl
  | some y =>
    rcases preferred?_both hshow honly hasArgs types expected { key, callee := v, exact } y with
      ⟨-, hwins⟩ | ⟨hprefers, hwins⟩
    · rw [hwins]
      exact .of_new hfilled rfl
    · rw [hwins]
      cases c with
      | none =>
        rw [preferred?_one hshow honly (.inl rfl)]
        exact .refl filled v _
      | some x =>
        rcases preferred?_both hshow honly hasArgs types expected x y with
          ⟨hbefore, hwon⟩ | ⟨-, hwon⟩
        · have := hkey y rfl
          unfold PrefersContext at hprefers hbefore
          grind
        · rw [hwon]
          exact .refl filled v _

/-- How the winner changes when the searches gain an entry that was not there. Candidates under one
key have one method. -/
theorem preferred?_gains (m : ClassMethod) (hasArgs : Bool) (types : List String)
    (hcontext : context = none → c = none ∧ c' = none) (hkey : ∀ y, a = some y → y.key ≠ key)
    (hsame : ∀ x y, c = some x → a = some y → x.key = y.key → x.callee = y.callee)
    (hc : c' = c ∨ ((m.traitName = "Show" → hasArgs = false) → filled) ∧
      c' = some { key, callee := v, exact := true })
    (ha : a' = a ∨ (m.isContextOnly = false → filled) ∧
      (∃ exact, a' = some { key, callee := v, exact }) ∧ ∀ y, a = some y → y.exact = false) :
    Prevails filled v (m.preferred? hasArgs types context c a)
      (m.preferred? hasArgs types context c' a') := by
  by_cases hshow : m.traitName = "Show"
  · have honly : m.isContextOnly = false := by simp [isContextOnly, hshow]
    rw [preferred?_show hshow, preferred?_show hshow]
    rcases ha with rfl | ⟨hfilled, ⟨exact, rfl⟩, -⟩
    · rcases hc with rfl | ⟨hfilled, rfl⟩
      · exact .refl filled v _
      · cases a' with
        | some y => exact .refl filled v _
        | none =>
          cases hasArgs with
          | true => exact .refl filled v _
          | false => exact .of_new (hfilled fun _ => rfl) rfl
    · exact .of_new (hfilled honly) rfl
  have shown : m.traitName = "Show" → hasArgs = false := fun h => absurd h hshow
  by_cases honly : m.isContextOnly = true
  · rw [preferred?_contextOnly hshow honly, preferred?_contextOnly hshow honly]
    rcases hc with rfl | ⟨hfilled, rfl⟩
    · exact .refl filled v _
    · exact .of_new (hfilled shown) rfl
  have honly : m.isContextOnly = false := by simpa using honly
  rcases hc with rfl | ⟨hfilled, rfl⟩
  · rcases ha with rfl | ⟨hfilled, ⟨exact, rfl⟩, hinexact⟩
    · exact .refl filled v _
    · exact preferred?_gains_argument (hfilled honly) hshow honly (fun h => (hcontext h).1) hsame
        hinexact
  · have hfilled := hfilled shown
    cases context with
    | none => cases (hcontext rfl).2
    | some expected =>
      rcases ha with rfl | ⟨-, ⟨exact, rfl⟩, -⟩
      · exact preferred?_gains_context hfilled hshow honly hkey
      · rcases preferred?_both hshow honly hasArgs types expected
            { key, callee := v, exact := true } { key, callee := v, exact } with
          ⟨-, hwins⟩ | ⟨-, hwins⟩
        · rw [hwins]
          exact .of_new hfilled rfl
        · rw [hwins]
          exact .of_new hfilled rfl

end General

end Preferred

end ClassMethod

namespace Machine

/-- The candidate for the type that the caller expects. -/
def contextOffer? (mach : Machine) (m : ClassMethod) (args : List Value)
    (site : CallSite) : Option Candidate :=
  (mach.expectedType m site).bind fun c =>
    mach.registry.contextCandidate? m c.1 (plainArgs args)

/-- The candidate for the types of the arguments. -/
def argumentOffer? (mach : Machine) (m : ClassMethod) (args : List Value)
    (site : CallSite) : Option Candidate :=
  if m.isReturnOnly || (m.dispatchTypes (plainArgs args)).isEmpty then none
  else mach.registry.argumentCandidate? m (m.dispatchTypes (plainArgs args)) (plainArgs args)
    ((mach.expectedType m site).bind fun c => c.1.constructorName)

/-- The candidate that a method is resolved to, short of a default. -/
def preferred? (mach : Machine) (m : ClassMethod) (args : List Value)
    (site : CallSite) : Option Candidate :=
  m.preferred? (!(plainArgs args).isEmpty) (m.dispatchTypes (plainArgs args))
    (mach.expectedType m site) (mach.contextOffer? m args site)
    (mach.argumentOffer? m args site)

/-- For a method without parameters, the evidence in force names the instance. -/
def EvidenceNames (mach : Machine) (m : ClassMethod) (key : TypeKey) : Prop :=
  m.arity = 0 ∧ ∃ ty, mach.witnesses.lookup m.traitName = some ty ∧
    mach.registry.StandsFor key (.ofTypes [ty])

/-- A call goes by the instance: the evidence in force names it, the type that the caller expects
does, or the types of the arguments meet it. -/
inductive GoesBy (mach : Machine) (m : ClassMethod) (args : List Value) (site : CallSite)
    (key : TypeKey) : Prop where
  | evidence : mach.EvidenceNames m key → GoesBy mach m args site key
  /-- except for `Show`, which has its arguments decide -/
  | context {ty : Ty} {source : ContextSource} : mach.expectedType m site = some (ty, source) →
      mach.registry.StartsWith key ty → (m.traitName = "Show" → plainArgs args = []) →
      GoesBy mach m args site key
  /-- except for methods whose result alone carries the type -/
  | argument : m.isReturnOnly = false → m.isContextOnly = false →
      key.Meets (m.dispatchTypes (plainArgs args))
        ((mach.expectedType m site).bind fun c => c.1.constructorName) →
      GoesBy mach m args site key

variable {mach : Machine} {m : ClassMethod} {args : List Value} {site : CallSite}

/-- Dictionaries in front of the arguments do not count. -/
theorem GoesBy.congr {args' : List Value} {key : TypeKey} (h : mach.GoesBy m args site key)
    (hargs : plainArgs args' = plainArgs args) : mach.GoesBy m args' site key := by
  cases h with
  | evidence hnames => exact .evidence hnames
  | context hexpected hstarts hshow => exact .context hexpected hstarts (hargs ▸ hshow)
  | argument hreturn honly hmeets => exact .argument hreturn honly (hargs ▸ hmeets)

theorem weigh_of_preferred {found : Candidate}
    (h : mach.preferred? m args site = some found) :
    ∃ witness, mach.weigh m args site = .inl { callee := found.callee, args, witness } := by
  unfold preferred? ClassMethod.preferred? contextOffer? argumentOffer? at h
  unfold weigh
  dsimp only
  split at h
  · rename_i hchoice
    rw [hchoice, h]
    exact ⟨_, rfl⟩
  · rename_i hchoice
    rw [hchoice, h]
    exact ⟨_, rfl⟩
  · cases h

theorem weigh_of_not_preferred (h : mach.preferred? m args site = none) :
    mach.weigh m args site = .inr
      { args, types := m.dispatchTypes (plainArgs args)
        context := mach.expectedType m site, hasArgs := !(plainArgs args).isEmpty } := by
  unfold preferred? ClassMethod.preferred? contextOffer? argumentOffer? at h
  unfold weigh
  dsimp only
  split at h
  · rename_i hchoice
    rw [hchoice, h]
  · rename_i hchoice
    rw [hchoice, h]
  · rename_i hchoice
    rw [hchoice]

theorem args_weigh (mach : Machine) (m : ClassMethod) (args : List Value)
    (site : CallSite) :
    (mach.weigh m args site).elim Resolution.args Fallback.args = args := by
  cases h : mach.preferred? m args site with
  | none => rw [weigh_of_not_preferred h, Sum.elim_inr]
  | some found =>
    obtain ⟨witness, hweigh⟩ := weigh_of_preferred h
    rw [hweigh, Sum.elim_inl]

theorem offers_of_contextOffer? {found : Candidate}
    (h : mach.contextOffer? m args site = some found) :
    mach.registry.Offers m (plainArgs args) found := by
  obtain ⟨expected, -, hfound⟩ := Option.bind_eq_some_iff.1 h
  exact Registry.offers_of_contextCandidate? hfound

theorem offers_of_argumentOffer? {found : Candidate}
    (h : mach.argumentOffer? m args site = some found) :
    mach.registry.Offers m (plainArgs args) found := by
  unfold argumentOffer? at h
  split at h
  · cases h
  · exact Registry.offers_of_argumentCandidate? h

section WithDefault

variable {a b : ClassMethod} {f : Func} {key : TypeKey} {named : Bool}

theorem registry_withDefault (mach : Machine) (a : ClassMethod) (f : Func) (key : TypeKey)
    (named : Bool) :
    (mach.withDefault a f (some (key, named))).registry =
      mach.registry.addMethod a.traitName key a.method
        (.function mach.nextIdent (Registry.defaultClosure a.traitName f)) := rfl

theorem byDictionary_withDefault (mach : Machine) (a b : ClassMethod) (f : Func) (key : TypeKey)
    (named : Bool) (args : List Value) :
    (mach.withDefault a f (some (key, named))).registry.byDictionary b args =
      mach.registry.byDictionary b args :=
  (Registry.agreeOnNames_addMethod mach.registry _ _ _ _).byDictionary b args

theorem expectedType_withDefault (mach : Machine) (a b : ClassMethod) (f : Func)
    (place : Option (TypeKey × Bool)) (site : CallSite) :
    (mach.withDefault a f place).expectedType b site = mach.expectedType b site := rfl

/-- Other methods are selected as before. -/
theorem select_withDefault_of_other (hb : ¬ (b.traitName = a.traitName ∧ b.method = a.method))
    (mach : Machine) (f : Func) (key : TypeKey) (named : Bool) (args : List Value)
    (site : CallSite) :
    (mach.withDefault a f (some (key, named))).select b args site =
      mach.select b args site := by
  have hwitness : (mach.withDefault a f (some (key, named))).witnessCandidate? b =
      mach.witnessCandidate? b := by
    simp only [witnessCandidate?, registry_withDefault, Registry.lookupWithAlias?_of_other hb]
    rfl
  have hweigh (rest : List Value) : (mach.withDefault a f (some (key, named))).weigh b rest
      site = mach.weigh b rest site := by
    simp only [weigh, expectedType_withDefault, registry_withDefault,
      Registry.contextCandidate?_of_other hb, Registry.argumentCandidate?_of_other hb]
  simp only [select, byDictionary_withDefault, hwitness, hweigh]

/-- The candidate for the method itself is the former one or, if the call goes by the instance, the
new entry. -/
theorem preferred?_withDefault (mach : Machine) (f : Func) (named : Bool)
    (htrait : b.traitName = a.traitName) (hmethod : b.method = a.method)
    (habsent : mach.registry.lookup? a.traitName key a.method = none)
    (args : List Value) (site : CallSite) :
    ClassMethod.Prevails (mach.GoesBy b args site key)
      (.function mach.nextIdent (Registry.defaultClosure a.traitName f))
      (mach.preferred? b args site)
      ((mach.withDefault a f (some (key, named))).preferred? b args site) := by
  have hundefined : mach.registry.Defines b key = false := by
    simp [Registry.Defines, htrait, hmethod, habsent]
  have hregistry : (mach.withDefault a f (some (key, named))).registry =
      mach.registry.addMethod b.traitName key b.method
        (.function mach.nextIdent (Registry.defaultClosure a.traitName f)) := by
    rw [registry_withDefault, htrait, hmethod]
  have hcontext : mach.expectedType b site = none →
      mach.contextOffer? b args site = none ∧
        (mach.withDefault a f (some (key, named))).contextOffer? b args site = none := by
    intro hnone
    simp [contextOffer?, expectedType_withDefault, hnone]
  have hkey : ∀ y, mach.argumentOffer? b args site = some y → y.key ≠ key :=
    fun y hy => (offers_of_argumentOffer? hy).ne_of_absent hundefined
  have hsame : ∀ x y, mach.contextOffer? b args site = some x →
      mach.argumentOffer? b args site = some y → x.key = y.key → x.callee = y.callee := by
    intro x y hx hy hkeys
    have hlookup := (offers_of_contextOffer? hx).lookup
    rw [hkeys, (offers_of_argumentOffer? hy).lookup] at hlookup
    exact (Option.some.inj hlookup).symm
  unfold preferred?
  rw [expectedType_withDefault]
  refine ClassMethod.preferred?_gains b _ _ hcontext hkey hsame ?_ ?_
  · unfold contextOffer?
    rw [expectedType_withDefault, hregistry]
    cases hexpected : mach.expectedType b site with
    | none => exact .inl rfl
    | some expected =>
      refine (Registry.contextCandidate?_gains hundefined _ _ _).imp_right fun hnew => ⟨?_, hnew.2⟩
      exact fun hshow => .context hexpected hnew.1 (by simpa using hshow)
  · unfold argumentOffer?
    rw [expectedType_withDefault, hregistry]
    split
    · exact .inl rfl
    · rename_i hargs
      simp only [Bool.or_eq_true, List.isEmpty_iff, not_or, Bool.not_eq_true] at hargs
      refine (Registry.argumentCandidate?_gains hundefined _ hargs.2 _ _).imp_right
        fun hnew => ⟨?_, hnew.2⟩
      exact fun honly => .argument hargs.1 honly hnew.1

theorem witnessCandidate?_withDefault (mach : Machine) (f : Func) (key : TypeKey) (named : Bool)
    (htrait : b.traitName = a.traitName) (hmethod : b.method = a.method) :
    (mach.withDefault a f (some (key, named))).witnessCandidate? b = mach.witnessCandidate? b ∨
      mach.EvidenceNames b key ∧ (mach.withDefault a f (some (key, named))).witnessCandidate? b =
        some (.function mach.nextIdent (Registry.defaultClosure a.traitName f)) := by
  unfold witnessCandidate?
  split
  · rename_i harity
    have hwitnesses : (mach.withDefault a f (some (key, named))).witnesses = mach.witnesses := rfl
    rw [hwitnesses]
    cases hlookup : mach.witnesses.lookup b.traitName with
    | none => exact .inl rfl
    | some ty =>
      rw [registry_withDefault, ← htrait, ← hmethod]
      exact (Registry.lookupWithAlias?_gains mach.registry b key _ _).imp_right fun hnew =>
        ⟨⟨harity, ty, hlookup, hnew.1⟩, hnew.2⟩
  · exact .inl rfl

/-- What the method itself is resolved to, if nothing is left to a default: what it was resolved to
before or, where `filled` holds, the new entry, for the same arguments. -/
inductive Selects (filled : Prop) (v : Value) :
    Resolution ⊕ Fallback → Resolution ⊕ Fallback → Prop where
  | fallback (fb : Fallback) : Selects filled v (.inr fb) (.inr fb)
  | same {r r' : Resolution} : r'.callee = r.callee → r'.args = r.args →
      Selects filled v (.inl r) (.inl r')
  | taken {before : Resolution ⊕ Fallback} {r' : Resolution} : filled → r'.callee = v →
      r'.args = before.elim Resolution.args Fallback.args → Selects filled v before (.inl r')

/-- It is enough to look at the candidates that remain when neither dictionaries nor evidence
decide. -/
theorem select_of_prevails {filled : Prop} (mach : Machine) (f : Func) (named : Bool)
    (htrait : b.traitName = a.traitName) (hmethod : b.method = a.method)
    (args : List Value) (site : CallSite) (hfilled : mach.EvidenceNames b key → filled)
    (h : ∀ rest, mach.registry.byDictionary b args = (none, rest) →
      mach.witnessCandidate? b = none →
      ClassMethod.Prevails filled
        (.function mach.nextIdent (Registry.defaultClosure a.traitName f))
        (mach.preferred? b rest site)
        ((mach.withDefault a f (some (key, named))).preferred? b rest site)) :
    Selects filled (.function mach.nextIdent (Registry.defaultClosure a.traitName f))
      (mach.select b args site)
      ((mach.withDefault a f (some (key, named))).select b args site) := by
  unfold select
  rw [byDictionary_withDefault]
  rcases hdict : mach.registry.byDictionary b args with ⟨found?, rest⟩
  cases found? with
  | some found => exact .same rfl rfl
  | none =>
    rcases witnessCandidate?_withDefault mach f key named htrait hmethod with hsame | ⟨hnames, hnew⟩
    · rw [hsame]
      cases hevidence : mach.witnessCandidate? b with
      | some found => exact .same rfl rfl
      | none =>
        rcases h rest hdict hevidence with ⟨hafter, hbefore⟩ | ⟨w, hafter, hw⟩
        · have hfallback := weigh_of_not_preferred hafter
          rw [expectedType_withDefault] at hfallback
          simp only [weigh_of_not_preferred hbefore, hfallback]
          exact .fallback _
        · obtain ⟨witness', hweigh'⟩ := weigh_of_preferred hafter
          simp only [hweigh']
          rcases hw with ⟨hnew, hv⟩ | ⟨u, hbefore, hu⟩
          · exact .taken hnew hv (args_weigh mach b rest site).symm
          · obtain ⟨witness, hweigh⟩ := weigh_of_preferred hbefore
            simp only [hweigh]
            exact .same hu rfl
    · rw [hnew]
      refine .taken (hfilled hnames) rfl ?_
      cases mach.witnessCandidate? b with
      | some found => rfl
      | none => exact (args_weigh mach b rest site).symm

theorem select_withDefault (mach : Machine) (f : Func) (named : Bool)
    (htrait : b.traitName = a.traitName) (hmethod : b.method = a.method)
    (habsent : mach.registry.lookup? a.traitName key a.method = none)
    (args : List Value) (site : CallSite) :
    Selects (mach.GoesBy b args site key)
      (.function mach.nextIdent (Registry.defaultClosure a.traitName f))
      (mach.select b args site)
      ((mach.withDefault a f (some (key, named))).select b args site) := by
  refine select_of_prevails mach f named htrait hmethod args site .evidence fun rest hdict _ => ?_
  have hplain : plainArgs args = plainArgs rest :=
    (Registry.stripped_of_byDictionary hdict).plainArgs_eq.symm
  exact (preferred?_withDefault mach f named htrait hmethod habsent rest site).imp fun hgoes =>
    hgoes.congr hplain

end WithDefault

end Machine

/-- Equal up to the identity of a function. -/
inductive Value.SameDefinition : Value → Value → Prop where
  | refl (v : Value) : SameDefinition v v
  | function (id id' : Ident) (c : Closure) : SameDefinition (.function id c) (.function id' c)

theorem Registry.hasInstance_addMethod (r : Registry) (traitName : String) (key : TypeKey)
    (method : String) (v : Value) (traitName' : String) (key' : TypeKey) :
    (r.addMethod traitName key method v).hasInstance traitName' key' = true ↔
      r.hasInstance traitName' key' = true ∨ traitName' = traitName ∧ key' = key := by
  unfold hasInstance Assoc.contains
  rw [table_addMethod]
  by_cases htrait : traitName' = traitName
  · subst htrait
    rw [if_pos rfl, Assoc.lookup_insert]
    by_cases hkey : key' = key
    · simp [hkey]
    · simp [hkey]
  · simp [htrait]

namespace Interpreter

/-- Resolving method `a` comes down to the default of its trait, which is `v` and fills an entry of
instance `key` that was not there. -/
structure Fills (i : Interpreter) (a : ClassMethod) (args : List Value) (site : CallSite)
    (key : TypeKey) (v : Value) (j : Interpreter) : Prop where
  resolves : ∃ r, i.resolve a args site = (some (.ok r), j) ∧ r.callee = v
  place : i.machine.materializedKey? a args site = some key
  absent : i.machine.registry.lookup? a.traitName key a.method = none

/-- An interpreter whose machine has the stacks of another one. -/
def onStacks (i : Interpreter) (t : Machine) : Interpreter :=
  { i with machine := i.machine.onStacksOf t }

/-- The dictionary of an instance can be built. -/
def HasDictionary (i : Interpreter) (traitName : String) (key : TypeKey) : Prop :=
  ∃ d, (i.exec (Run.buildDictionary traitName key)).1 = some (.ok d)

/-- Two results of resolving a method are the same for a caller: both fail in the same way, or both
give the same definition for the same arguments. Where `filled` holds the second may have taken the
method `v` instead. -/
inductive Alike (filled : Prop) (v : Value) :
    Option (Except Fault Resolution) → Option (Except Fault Resolution) → Prop where
  | same {r r' : Resolution} : r.callee.SameDefinition r'.callee → r'.args = r.args →
      Alike filled v (some (.ok r)) (some (.ok r'))
  | taken {r r' : Resolution} : filled → r'.callee = v → r'.args = r.args →
      Alike filled v (some (.ok r)) (some (.ok r'))
  | failed (f : Fault) : Alike filled v (some (.error f)) (some (.error f))

variable {i j : Interpreter} {a b : ClassMethod} {args : List Value} {site : CallSite}
  {key : TypeKey} {v : Value}

theorem hasDictionary_iff (i : Interpreter) (traitName : String) (key : TypeKey) :
    i.HasDictionary traitName key ↔ i.machine.registry.hasInstance traitName key = true := by
  unfold HasDictionary exec Run.buildDictionary Registry.dictionary?
  cases i.machine.registry.hasInstance traitName key <;> simp

theorem Fills.machine (h : i.Fills a args site key v j) :
    ∃ f named, i.machine.registry.userDefault? a.traitName a.method = some f ∧
      v = .function i.machine.nextIdent (Registry.defaultClosure a.traitName f) ∧
      j = { i with machine := i.machine.withDefault a f (some (key, named)) } := by
  obtain ⟨r, hresolve, rfl⟩ := h.resolves
  have hplace := h.place
  have hcases := Run.resolve_cases a args site i.setting i.machine
  unfold resolve exec at hresolve
  cases hrun : Run.resolve a args site i.setting i.machine with
  | failed g m => simp [hrun] at hresolve
  | halted why => simp [hrun] at hresolve
  | done r' m =>
    rw [hrun] at hcases hresolve
    cases hresolve
    obtain ⟨route, hroute⟩ := hcases
    by_cases hdefault : route = .userDefault
    · subst hdefault
      cases hroute with
      | @userDefault fb f hselect huser =>
        rw [Machine.materializedKey?, hselect] at hplace
        simp only [huser, Option.isSome_some, if_true] at hplace
        obtain ⟨⟨key', named⟩, hkey, rfl⟩ := Option.map_eq_some_iff.1 hplace
        rw [hkey]
        exact ⟨f, named, huser, rfl, rfl⟩
    · rw [hroute.materializedKey? hdefault] at hplace
      cases hplace

theorem resolve_fst (hi : i.Unwatched) (b : ClassMethod) (args : List Value) (site : CallSite) :
    (i.resolve b args site).1 =
      (i.machine.select b args site).elim (fun r => some (.ok r))
        fun fb => (i.exec (Run.resolveDefault b fb)).1 := by
  unfold resolve exec
  rw [Run.resolve_eq (hi _ _)]
  cases i.machine.select b args site <;> rfl

/-- A default does not depend on the instances, nor on the expected type. -/
theorem resolveDefault_alike {filled : Prop} {fb fb' : Fallback}
    (huser : j.machine.registry.userDefault? b.traitName b.method =
      i.machine.registry.userDefault? b.traitName b.method)
    (hbuiltin : j.machine.registry.builtinDefault? b.traitName b.method =
      i.machine.registry.builtinDefault? b.traitName b.method)
    (hargs : fb'.args = fb.args) (htypes : fb'.types = fb.types) :
    Alike filled v (i.exec (Run.resolveDefault b fb)).1 (j.exec (Run.resolveDefault b fb')).1 := by
  unfold exec
  cases hf : i.machine.registry.userDefault? b.traitName b.method with
  | some f =>
    rw [hf] at huser
    rw [Run.resolveDefault_user hf, Run.resolveDefault_user huser]
    exact .same (.function _ _ _) hargs
  | none =>
    rw [hf] at huser
    cases hcallee : i.machine.registry.builtinDefault? b.traitName b.method with
    | some callee =>
      rw [hcallee] at hbuiltin
      rw [Run.resolveDefault_builtin hf hcallee, Run.resolveDefault_builtin huser hbuiltin]
      exact .same (.refl _) hargs
    | none =>
      rw [hcallee] at hbuiltin
      rw [Run.resolveDefault_none hf hcallee, Run.resolveDefault_none huser hbuiltin, htypes]
      exact .failed _

theorem resolve_withDefault_alike (hi : i.Unwatched) {f : Func} (named : Bool)
    (huser : i.machine.registry.userDefault? a.traitName a.method = some f)
    (habsent : i.machine.registry.lookup? a.traitName key a.method = none)
    (hj : j = { i with machine := i.machine.withDefault a f (some (key, named)) })
    (b : ClassMethod) (args : List Value) (site : CallSite) :
    Alike (b.traitName = a.traitName ∧ b.method = a.method ∧ i.machine.GoesBy b args site key)
      (.function i.machine.nextIdent (Registry.defaultClosure a.traitName f))
      (i.resolve b args site).1 (j.resolve b args site).1 := by
  have hdefaults (fb : Fallback) : Alike
      (b.traitName = a.traitName ∧ b.method = a.method ∧ i.machine.GoesBy b args site key)
      (.function i.machine.nextIdent (Registry.defaultClosure a.traitName f))
      (i.exec (Run.resolveDefault b fb)).1 (j.exec (Run.resolveDefault b fb)).1 := by
    subst hj
    exact resolveDefault_alike rfl rfl rfl rfl
  have hunwatched : j.Unwatched := by
    subst hj
    exact hi
  have hmachine : j.machine = i.machine.withDefault a f (some (key, named)) := by rw [hj]
  rw [resolve_fst hi, resolve_fst hunwatched, hmachine]
  by_cases hb : b.traitName = a.traitName ∧ b.method = a.method
  · have hselects := Machine.select_withDefault i.machine f named hb.1 hb.2 habsent
      args site
    generalize i.machine.select b args site = before at hselects ⊢
    generalize (i.machine.withDefault a f (some (key, named))).select b args site =
      after at hselects ⊢
    cases hselects with
    | fallback fb => exact hdefaults fb
    | same hcallee hargs => exact .same (hcallee ▸ .refl _) hargs
    | taken hgoes hcallee hargs =>
      cases before with
      | inl r => exact .taken ⟨hb.1, hb.2, hgoes⟩ hcallee hargs
      | inr fb =>
        have hdefault : i.machine.registry.userDefault? b.traitName b.method = some f := by
          rw [hb.1, hb.2, huser]
        rw [Sum.elim_inr, Sum.elim_inl, exec, Run.resolveDefault_user hdefault]
        exact .taken ⟨hb.1, hb.2, hgoes⟩ hcallee hargs
  · rw [Machine.select_withDefault_of_other hb]
    cases i.machine.select b args site with
    | inl r => exact .same (.refl _) rfl
    | inr fb => exact hdefaults fb

/-- After a default filled an entry that was not there, any method is resolved, for any arguments,
at any call site and on any stacks, to the same definition and arguments as before, or fails as
before; only the very method that was filled in may be resolved to the new entry instead, in calls
that go by the filled instance. A dictionary can be built if it could be before or if it is that of
the filled instance. -/
theorem resolve_after_fill (hi : i.Unwatched) (h : i.Fills a args site key v j) :
    (∀ b args' site' t, Alike (b.traitName = a.traitName ∧ b.method = a.method ∧
        (i.onStacks t).machine.GoesBy b args' site' key) v
      ((i.onStacks t).resolve b args' site').1 ((j.onStacks t).resolve b args' site').1) ∧
    ∀ traitName key', j.HasDictionary traitName key' ↔
      i.HasDictionary traitName key' ∨ traitName = a.traitName ∧ key' = key := by
  obtain ⟨f, named, huser, rfl, rfl⟩ := h.machine
  constructor
  · intro b args' site' t
    exact resolve_withDefault_alike (i := i.onStacks t) hi named huser h.absent rfl b args' site'
  · intro traitName key'
    rw [hasDictionary_iff, hasDictionary_iff]
    exact Registry.hasInstance_addMethod _ _ _ _ _ _ _

namespace Pairing

/-- Dispatches on its first argument. -/
def pair : ClassMethod :=
  { traitName := "Pair", method := "pair", arity := 2, dispatch := some [.arg 0] }

def answering (second : Option Ty) (text : String) : Func :=
  ⟨"pair", [⟨"x", none, none, false⟩, ⟨"y", second, none, false⟩], none, [], [],
    ⟨.lit (.str text), {}⟩, {}⟩

/-- The method of an instance for all types; its second parameter is an integer. -/
def own : Value :=
  .function 0
    { func := answering (some (.con "Int")) "instance", scope := Store.global
      owner := some "Pair" }

def start : Interpreter where
  setting := {}
  machine :=
    { registry :=
        { instances := [("Pair", [(.single "a", [("pair", own)])])]
          userDefaults := [("Pair", [("pair", answering none "default")])] }
      nextIdent := 1 }

/-- The default as a method of the instance for truth values. -/
def filled : Value := .function 1 (Registry.defaultClosure "Pair" (answering none "default"))

/-- The default has become a method of an instance for truth values. -/
def after : Interpreter :=
  { start with
    machine :=
      { start.machine with
        registry := start.machine.registry.addMethod "Pair" (.single "Bool") "pair" filled
        nextIdent := 2 } }

/-- A string is no integer, so the default is taken. -/
theorem start_fills :
    start.Fills pair [.bool true, .str "s"] { name := "pair" } (.single "Bool") filled after where
  resolves := ⟨{ callee := filled, args := [.bool true, .str "s"] }, by with_unfolding_all rfl, rfl⟩
  place := by with_unfolding_all rfl
  absent := rfl

end Pairing

open Pairing in
theorem resolve_after_fill_pairing :
    start.Fills pair [.bool true, .str "s"] { name := "pair" } (.single "Bool") filled after ∧
    (∀ b args' site' t, Alike (b.traitName = "Pair" ∧ b.method = "pair" ∧
        (start.onStacks t).machine.GoesBy b args' site' (.single "Bool")) filled
      ((start.onStacks t).resolve b args' site').1 ((after.onStacks t).resolve b args' site').1) ∧
    ∀ traitName key', after.HasDictionary traitName key' ↔
      start.HasDictionary traitName key' ∨ traitName = "Pair" ∧ key' = .single "Bool" :=
  ⟨start_fills, resolve_after_fill (fun _ _ => rfl) start_fills⟩

open Pairing in
/-- The call that took the default is not without consequences: a call with an integer had the
method of the instance for all types and now has the default, and a dictionary for truth values is
there now. -/
theorem resolve_changes_after_fill :
    start.Fills pair [.bool true, .str "s"] { name := "pair" } (.single "Bool") filled after ∧
    (∃ r r', (start.resolve pair [.bool true, .int 7] { name := "pair" }).1 = some (.ok r) ∧
      (after.resolve pair [.bool true, .int 7] { name := "pair" }).1 = some (.ok r') ∧
      ¬ r.callee.SameDefinition r'.callee) ∧
    ¬ start.HasDictionary "Pair" (.single "Bool") ∧
    after.HasDictionary "Pair" (.single "Bool") := by
  have hown : (start.resolve pair [.bool true, .int 7] { name := "pair" }).1 =
      some (.ok { callee := own, args := [.bool true, .int 7] }) := by with_unfolding_all rfl
  have htaken : (after.resolve pair [.bool true, .int 7] { name := "pair" }).1 =
      some (.ok { callee := filled, args := [.bool true, .int 7] }) := by with_unfolding_all rfl
  have hdiffer : ¬ own.SameDefinition filled := by
    intro h
    cases h
  refine ⟨start_fills, ⟨_, _, hown, htaken, hdiffer⟩, ?_, ?_⟩
  · rw [hasDictionary_iff]
    decide
  · rw [hasDictionary_iff]
    decide

end Interpreter

end TraitLang
