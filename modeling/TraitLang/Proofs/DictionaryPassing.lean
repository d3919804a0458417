import TraitLang.Eval

/-!
Dictionaries against the table of instances. The builder walks along super-traits and lists the
methods of each; the reader searches the result depth first. Main statement: a method that is read
from the dictionary of an instance, at any depth of super-traits, is the one that the table holds
for the same key or, where the table has none, what the defaults of its trait put in its place.
-/
namespace TraitLang

namespace Dictionary

/-- The dictionary itself, those of its super-traits, and so on. -/
inductive Contains : Dictionary → Dictionary → Prop where
  | refl (d : Dictionary) : Contains d d
  | super {d sup d' : Dictionary} : sup ∈ d.supers → Contains sup d' → Contains d d'

end Dictionary

namespace Registry

/-- The trait's own dictionary in `d`, or in its super-traits at any depth, has `v` in the place of
the method. -/
def FoundIn (r : Registry) (traitName method : String) (d : Dictionary) (v : Value) : Prop :=
  ∃ d' i, d.Contains d' ∧ d'.traitName = traitName ∧
    (r.methodNames traitName).findIdx? (· == method) = some i ∧ d'.methods[i]? = some v

/-- What stands for a method in the dictionary of an instance: the method of the instance; failing
that the default of the trait, closed over the global scope; failing that the builtin default;
failing all, the trait method itself, to be dispatched when it is called. -/
inductive Supplies (r : Registry) (key : TypeKey) (traitName method : String) : Value → Prop where
  | own {v : Value} : r.lookup? traitName key method = some v → Supplies r key traitName method v
  | userDefault {f : Func} (id : Ident) : r.lookup? traitName key method = none →
      r.userDefault? traitName method = some f →
      Supplies r key traitName method (.function id (defaultClosure traitName f))
  | builtinDefault {v : Value} : r.lookup? traitName key method = none →
      r.userDefault? traitName method = none → r.builtinDefault? traitName method = some v →
      Supplies r key traitName method v
  | dispatched (id : Ident) : r.lookup? traitName key method = none →
      r.userDefault? traitName method = none → r.builtinDefault? traitName method = none →
      Supplies r key traitName method (.method id
        { traitName, method, arity := (r.traitMethod? traitName method).elim 0 TraitMethod.arity })

/-- A dictionary for a key that lists what stands for each method of its trait, in order. -/
structure Lists (r : Registry) (key : TypeKey) (d : Dictionary) : Prop where
  key_eq : d.key = some key
  methods_eq : ∃ first, d.methods = r.methodsFrom key d.traitName first (r.methodNames d.traitName)

section Reader

variable {r : Registry} {key : TypeKey} {traitName method : String}

theorem methodOrDefault_supplies (r : Registry) (key : TypeKey) (traitName : String) (id : Ident)
    (method : String) :
    r.Supplies key traitName method (r.methodOrDefault key traitName id method) := by
  unfold methodOrDefault
  cases hown : r.lookup? traitName key method with
  | some v => exact .own hown
  | none =>
    cases huser : r.userDefault? traitName method with
    | some f => exact .userDefault id hown huser
    | none =>
      cases hbuiltin : r.builtinDefault? traitName method with
      | some v => exact .builtinDefault hown huser hbuiltin
      | none => exact .dispatched id hown huser hbuiltin

theorem getElem?_methodsFrom (r : Registry) (key : TypeKey) (traitName : String) (id : Ident)
    (names : List String) (i : Nat) :
    (r.methodsFrom key traitName id names)[i]? =
      names[i]?.map (r.methodOrDefault key traitName (id + i)) := by
  induction names generalizing id i with
  | nil => rfl
  | cons name names ih =>
    cases i with
    | zero => rfl
    | succ i =>
      have hid : id + 1 + i = id + (i + 1) := Nat.add_right_comm id 1 i
      simp only [methodsFrom, List.getElem?_cons_succ, ih, hid]

mutual

/-- What the search finds stands in a dictionary of the trait. -/
theorem foundIn_of_methodIn? (r : Registry) (traitName method : String) {v : Value} :
    ∀ d : Dictionary, r.methodIn? traitName method d = some v → r.FoundIn traitName method d v
  | ⟨id, name, key, methods, supers⟩, h => by
    rw [methodIn?] at h
    split at h
    · rename_i hname
      obtain ⟨i, hi, hv⟩ := Option.bind_eq_some_iff.1 h
      exact ⟨_, i, .refl _, hname, hi, hv⟩
    · obtain ⟨sup, hsup, d', i, hd', hrest⟩ := foundIn_of_methodInAny? r traitName method supers h
      exact ⟨d', i, .super hsup hd', hrest⟩

theorem foundIn_of_methodInAny? (r : Registry) (traitName method : String) {v : Value} :
    ∀ ds : List Dictionary, r.methodInAny? traitName method ds = some v →
      ∃ d ∈ ds, r.FoundIn traitName method d v
  | [], h => by cases h
  | d :: ds, h => by
    rw [methodInAny?] at h
    split at h
    · rename_i found hfound
      exact ⟨d, List.mem_cons_self, foundIn_of_methodIn? r traitName method d (h ▸ hfound)⟩
    · obtain ⟨d', hd', hfound⟩ := foundIn_of_methodInAny? r traitName method ds h
      exact ⟨d', List.mem_cons_of_mem d hd', hfound⟩

end

theorem getElem?_of_findIdx? {names : List String} {i : Nat}
    (h : names.findIdx? (· == method) = some i) : names[i]? = some method := by
  obtain ⟨hlt, heq, -⟩ := List.findIdx?_eq_some_iff_getElem.1 h
  rw [List.getElem?_eq_getElem hlt, eq_of_beq heq]

/-- A method has its place among the methods of its trait. -/
theorem exists_findIdx? {names : List String} (h : method ∈ names) :
    ∃ i, names.findIdx? (· == method) = some i := by
  apply Option.isSome_iff_exists.1
  rw [List.findIdx?_isSome, List.any_eq_true]
  exact ⟨method, h, beq_self_eq_true method⟩

theorem Lists.getElem? {d : Dictionary} (h : r.Lists key d) (hname : d.traitName = traitName)
    {i : Nat} (hi : (r.methodNames traitName)[i]? = some method) :
    ∃ v, d.methods[i]? = some v ∧ r.Supplies key traitName method v := by
  obtain ⟨first, hmethods⟩ := h.methods_eq
  refine ⟨r.methodOrDefault key traitName (first + i) method, ?_,
    methodOrDefault_supplies r key traitName _ method⟩
  rw [hmethods, hname, getElem?_methodsFrom, hi, Option.map_some]

/-- Whatever is found in dictionaries that list their methods stands for the method. -/
theorem FoundIn.supplies {d : Dictionary} {v : Value} (h : r.FoundIn traitName method d v)
    (hlists : ∀ d', d.Contains d' → r.Lists key d') : r.Supplies key traitName method v := by
  obtain ⟨d', i, hd', hname, hi, hv⟩ := h
  obtain ⟨w, hw, hsupplies⟩ := (hlists d' hd').getElem? hname (getElem?_of_findIdx? hi)
  rw [hv] at hw
  exact Option.some.inj hw ▸ hsupplies

mutual

/-- The search finds every method of a trait whose dictionary is in there somewhere. -/
theorem methodIn?_isSome {d' : Dictionary} (hmethod : method ∈ r.methodNames d'.traitName) :
    ∀ d : Dictionary, (∀ e, d.Contains e → r.Lists key e) → d.Contains d' →
      (r.methodIn? d'.traitName method d).isSome = true
  | ⟨id, name, k, methods, supers⟩, hlists, hcontains => by
    rw [methodIn?]
    split
    · rename_i hname
      obtain ⟨i, hi⟩ := exists_findIdx? hmethod
      obtain ⟨v, hv, -⟩ := (hlists _ (.refl _)).getElem? hname (getElem?_of_findIdx? hi)
      rw [hi, Option.bind_some, hv]
      rfl
    · rename_i hname
      refine methodInAny?_isSome hmethod supers (fun sup hsup e he => hlists e (.super hsup he)) ?_
      cases hcontains with
      | refl => exact absurd rfl hname
      | super hsup h => exact ⟨_, hsup, h⟩

theorem methodInAny?_isSome {d' : Dictionary} (hmethod : method ∈ r.methodNames d'.traitName) :
    ∀ ds : List Dictionary, (∀ d ∈ ds, ∀ e, d.Contains e → r.Lists key e) →
      (∃ d ∈ ds, d.Contains d') → (r.methodInAny? d'.traitName method ds).isSome = true
  | [], _, h => by
    obtain ⟨d, hd, -⟩ := h
    cases hd
  | d :: ds, hlists, h => by
    rw [methodInAny?]
    split
    · rfl
    · rename_i hnone
      refine methodInAny?_isSome hmethod ds
        (fun e he => hlists e (List.mem_cons_of_mem d he)) ?_
      obtain ⟨e, he, hcontains⟩ := h
      cases List.mem_cons.1 he with
      | inl heq =>
        have hsome := methodIn?_isSome hmethod d (hlists d List.mem_cons_self) (heq ▸ hcontains)
        rw [hnone] at hsome
        cases hsome
      | inr he => exact ⟨e, he, hcontains⟩

end

end Reader

section Builder

variable {r : Registry} {key : TypeKey}

/-- A trail has met each of its traits once, and each of them has an instance. -/
structure Trail.Sound (r : Registry) (key : TypeKey) (trail : Trail) : Prop where
  nodup : trail.visited.Nodup
  hasInstance : ∀ name ∈ trail.visited, r.hasInstance name key = true

theorem Trail.Sound.nil (r : Registry) (key : TypeKey) (next : Ident) :
    Trail.Sound r key ⟨[], next⟩ :=
  ⟨List.nodup_nil, fun _ hname => absurd hname List.not_mem_nil⟩

theorem Trail.Sound.cons {trail : Trail} (h : trail.Sound r key) {name : String}
    (hnew : name ∉ trail.visited) (hinst : r.hasInstance name key = true) (next : Ident) :
    Trail.Sound r key ⟨name :: trail.visited, next⟩ where
  nodup := List.nodup_cons.2 ⟨hnew, h.nodup⟩
  hasInstance other hother := by
    rcases List.mem_cons.1 hother with rfl | hother
    · exact hinst
    · exact h.hasInstance other hother

theorem mem_keys_of_hasInstance {name : String} (h : r.hasInstance name key = true) :
    name ∈ Assoc.keys r.instances := by
  unfold hasInstance table at h
  cases htable : r.instances.lookup name with
  | none =>
    rw [htable] at h
    cases h
  | some t =>
    obtain ⟨e, he, hname⟩ := List.lookup_isSome_iff.1 (Option.isSome_of_mem htable)
    exact List.mem_map.2 ⟨e, he, (eq_of_beq hname).symm⟩

/-- There are no more traits on a trail than traits with instances. -/
theorem Trail.Sound.length_le {trail : Trail} (h : trail.Sound r key) :
    trail.visited.length ≤ r.instances.length := by
  have hsub : trail.visited ⊆ Assoc.keys r.instances :=
    fun name hname => mem_keys_of_hasInstance (h.hasInstance name hname)
  have hle := h.nodup.length_le_of_subset hsub
  rwa [Assoc.keys, List.length_map] at hle

/-- The trail below a trait that the search has just met. -/
def Trail.enter (r : Registry) (trail : Trail) (name : String) : Trail where
  visited := name :: trail.visited
  nextIdent := trail.nextIdent + 1 + (r.methodNames name).length

/-- The dictionary of an instance around those of its super-traits. -/
def dictionaryAround (r : Registry) (key : TypeKey) (name : String) (id : Ident)
    (supers : List Dictionary) : Dictionary where
  id
  traitName := name
  key := some key
  methods := r.methodsFrom key name (id + 1) (r.methodNames name)
  supers

/-- The search along super-traits without a bound on its depth: the dictionaries that it makes for
a list of traits, and the trail before and after. -/
inductive Searches (r : Registry) (key : TypeKey) :
    List String → Trail → List Dictionary → Trail → Prop where
  | nil (trail : Trail) : Searches r key [] trail [] trail
  | skip {sup : String} {sups : List String} {trail after : Trail} {ds : List Dictionary} :
      sup ∈ trail.visited ∨ r.hasInstance sup key = false →
      Searches r key sups trail ds after → Searches r key (sup :: sups) trail ds after
  | enter {sup : String} {sups : List String} {trail between after : Trail}
      {supers ds : List Dictionary} :
      sup ∉ trail.visited → r.hasInstance sup key = true →
      Searches r key (r.supers sup) (trail.enter r sup) supers between →
      Searches r key sups between ds after →
      Searches r key (sup :: sups) trail (r.dictionaryAround key sup trail.nextIdent supers :: ds)
        after

namespace Searches

variable {sups sups' : List String} {trail between after : Trail} {ds ds' : List Dictionary}

theorem append (h : r.Searches key sups trail ds between)
    (h' : r.Searches key sups' between ds' after) :
    r.Searches key (sups ++ sups') trail (ds ++ ds') after := by
  induction h with
  | nil => exact h'
  | skip hskip _ ih => exact .skip hskip (ih h')
  | enter hnew hinst hsupers _ _ ih => exact .enter hnew hinst hsupers (ih h')

theorem sound (h : r.Searches key sups trail ds after) (hsound : trail.Sound r key) :
    after.Sound r key := by
  induction h with
  | nil => exact hsound
  | skip _ _ ih => exact ih hsound
  | enter hnew hinst _ _ ihSupers ih => exact ih (ihSupers (hsound.cons hnew hinst _))

theorem length_le (h : r.Searches key sups trail ds after) :
    trail.visited.length ≤ after.visited.length := by
  induction h with
  | nil => exact Nat.le_refl _
  | skip _ _ ih => exact ih
  | enter _ _ _ _ ihSupers ih =>
    simp only [Trail.enter, List.length_cons] at ihSupers
    omega

/-- Dictionaries list their methods at every depth. -/
theorem lists (h : r.Searches key sups trail ds after) :
    ∀ d ∈ ds, ∀ d', d.Contains d' → r.Lists key d' := by
  induction h with
  | nil => exact fun _ hd => absurd hd List.not_mem_nil
  | skip _ _ ih => exact ih
  | enter _ _ _ _ ihSupers ih =>
    intro d hd d' hd'
    rcases List.mem_cons.1 hd with rfl | hd
    · cases hd' with
      | refl => exact ⟨rfl, _, rfl⟩
      | super hsup h => exact ihSupers _ hsup d' h
    · exact ih d hd d' hd'

/-- The one dictionary for a single trait. -/
theorem eq_dictionaryAround {name : String} {d : Dictionary}
    (h : r.Searches key [name] trail [d] after) :
    ∃ supers, d = r.dictionaryAround key name trail.nextIdent supers := by
  cases h with
  | skip _ h => cases h
  | enter => exact ⟨_, rfl⟩

end Searches

theorem superDictionaries_searches {build : String → Trail → Dictionary × Trail} (bound : Nat)
    (hbuild : ∀ sup trail, trail.Sound r key → sup ∉ trail.visited →
      r.hasInstance sup key = true → bound ≤ trail.visited.length →
      r.Searches key [sup] trail [(build sup trail).1] (build sup trail).2)
    (sups : List String) (trail : Trail) (hsound : trail.Sound r key)
    (hbound : bound ≤ trail.visited.length) :
    r.Searches key sups trail (r.superDictionaries key build sups trail).1
      (r.superDictionaries key build sups trail).2 := by
  induction sups generalizing trail with
  | nil => exact .nil trail
  | cons sup sups ih =>
    rw [superDictionaries]
    by_cases hskip : sup ∈ trail.visited ∨ r.hasInstance sup key = false
    · rw [if_pos (by simpa using hskip)]
      exact .skip hskip (ih trail hsound hbound)
    · rw [if_neg (by simpa using hskip)]
      simp only [not_or, Bool.not_eq_false] at hskip
      have hfirst := hbuild sup trail hsound hskip.1 hskip.2 hbound
      exact hfirst.append (ih _ (hfirst.sound hsound) (Nat.le_trans hbound hfirst.length_le))

/-- The fuel never runs out: each level adds a trait to the trail, and there are only so many traits
with instances. -/
theorem assemble_searches (fuel : Nat) (traitName : String) (trail : Trail)
    (hsound : trail.Sound r key) (hnew : traitName ∉ trail.visited)
    (hinst : r.hasInstance traitName key = true)
    (hfuel : r.instances.length < fuel + trail.visited.length) :
    r.Searches key [traitName] trail [(r.assemble key fuel traitName trail).1]
      (r.assemble key fuel traitName trail).2 := by
  induction fuel generalizing traitName trail with
  | zero =>
    have hle := (hsound.cons hnew hinst 0).length_le
    simp only [List.length_cons] at hle
    omega
  | succ fuel ih =>
    have hsupers := superDictionaries_searches (r.instances.length - fuel + 1)
      (fun sup trail hsound hnew hinst hlen => ih sup trail hsound hnew hinst (by omega))
      (r.supers traitName) (trail.enter r traitName) (hsound.cons hnew hinst _)
      (by simp only [Trail.enter, List.length_cons]; omega)
    exact .enter hnew hinst hsupers (.nil _)

/-- The dictionary of an instance is what the search makes that starts there. -/
theorem searches_of_dictionary? {traitName : String} {next next' : Ident} {d : Dictionary}
    (h : r.dictionary? traitName key next = some (d, next')) :
    ∃ after, r.Searches key [traitName] ⟨[], next⟩ [d] after ∧ after.nextIdent = next' := by
  unfold dictionary? at h
  split at h
  · rename_i hinst
    have hsearches := assemble_searches (r.instances.length + 1) traitName ⟨[], next⟩
      (.nil r key next) List.not_mem_nil hinst (Nat.lt_succ_self _)
    simp only [Option.some.injEq, Prod.mk.injEq] at h
    obtain ⟨rfl, rfl⟩ := h
    exact ⟨_, hsearches, rfl⟩
  · cases h

/-- The dictionary of an instance is one of its trait, and all that it contains list their
methods. -/
theorem lists_of_dictionary? {traitName : String} {next next' : Ident} {d : Dictionary}
    (h : r.dictionary? traitName key next = some (d, next')) :
    d.traitName = traitName ∧ ∀ d', d.Contains d' → r.Lists key d' := by
  obtain ⟨after, hsearches, -⟩ := searches_of_dictionary? h
  obtain ⟨supers, rfl⟩ := hsearches.eq_dictionaryAround
  exact ⟨rfl, hsearches.lists _ List.mem_cons_self⟩

end Builder

end Registry

/-- Where building the dictionary of an instance succeeds, the registry stays as it is, and for
the trait and every other one with a dictionary in there, at any depth, reading a method of that
trait gives what the instance table holds under the same key, failing that a default, failing that
the trait method. -/
theorem buildDictionary_supplies {traitName : String} {key : TypeKey} {s : Setting} {m m' : Machine}
    {d : Dictionary} (h : Run.buildDictionary traitName key s m = .done d m') :
    m'.registry = m.registry ∧ d.traitName = traitName ∧
    ∀ d', d.Contains d' → ∀ method ∈ m.registry.methodNames d'.traitName,
      ∃ v, m.registry.methodIn? d'.traitName method d = some v ∧
        m.registry.Supplies key d'.traitName method v := by
  unfold Run.buildDictionary at h
  split at h
  · rename_i built next hbuilt
    cases h
    obtain ⟨hname, hlists⟩ := Registry.lists_of_dictionary? hbuilt
    refine ⟨rfl, hname, fun d' hd' method hmethod => ?_⟩
    obtain ⟨v, hv⟩ := Option.isSome_iff_exists.1
      (Registry.methodIn?_isSome hmethod d hlists hd')
    exact ⟨v, hv, (Registry.foundIn_of_methodIn? _ _ _ d hv).supplies hlists⟩
  · cases h

/-- Two traits that are super-traits of each other, one of them with a method listed twice and the
other with a builtin default only. -/
def mutualSupers : Registry where
  instances :=
    [("Ord", [(.single "Int", [("less", .operator .lt)])]), ("Eq", [(.single "Int", [])])]
  methodOrder := [("Ord", ["less", "less"]), ("Eq", ["eq"])]
  superTraits := [("Ord", ["Ord", "Eq"]), ("Eq", ["Ord"])]
  builtinDefaults := [("Eq", [("eq", .operator .eq)])]

theorem buildDictionary_supplies_mutualSupers :
    ∃ d m' eq, Run.buildDictionary "Ord" (.single "Int") {} { registry := mutualSupers } =
        .done d m' ∧
      d.Contains eq ∧ eq.traitName = "Eq" ∧
      ∃ v, mutualSupers.methodIn? "Eq" "eq" d = some v ∧
        mutualSupers.Supplies (.single "Int") "Eq" "eq" v := by
  have hbuilt : ∃ d m' eq, Run.buildDictionary "Ord" (.single "Int") {}
      { registry := mutualSupers } = .done d m' ∧ d.Contains eq ∧ eq.traitName = "Eq" :=
    ⟨_, _, _, rfl, .super List.mem_cons_self (.refl _), rfl⟩
  obtain ⟨d, m', eq, hbuilt, heq, hname⟩ := hbuilt
  have h := (buildDictionary_supplies hbuilt).2.2 eq heq "eq"
  rw [hname] at h
  exact ⟨d, m', eq, hbuilt, heq, hname, h (by decide)⟩

end TraitLang
