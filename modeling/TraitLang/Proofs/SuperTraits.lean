import TraitLang.Apply
import TraitLang.Proofs.DictionaryPassing
import Mathlib.Logic.Relation
import Mathlib.Data.List.Nodup

/-!
The traits that a dictionary covers. A search along super-traits meets a trait once, whatever cycles
and repetitions the lists of super-traits have. Main statement: the dictionary of an instance can be
built exactly if there is an instance, and it contains one dictionary for each trait that can be
reached along super-traits with instances and for no other; so whoever holds it can recover the
dictionary of every such super-trait.
-/
namespace TraitLang

theorem leadingDictionaries_of_plain {xs : List Value} (h : plainArgs xs = xs) :
    leadingDictionaries xs = [] := by
  cases xs with
  | nil => rfl
  | cons x xs =>
    cases x with
    | dictionary d =>
      have hlength : (plainArgs xs).length ≤ xs.length := (List.dropWhile_sublist _).length_le
      have hsame : plainArgs xs = .dictionary d :: xs := h
      rw [hsame, List.length_cons] at hlength
      omega
    | _ => rfl

namespace Dictionary

mutual

/-- The traits of a dictionary and of all that it contains, in the order of the search. -/
def traits : Dictionary → List String
  | ⟨_, name, _, _, supers⟩ => name :: traitsOfAll supers

def traitsOfAll : List Dictionary → List String
  | [] => []
  | d :: ds => d.traits ++ traitsOfAll ds

end

theorem traits_eq (d : Dictionary) : d.traits = d.traitName :: traitsOfAll d.supers := by
  cases d
  rw [traits]

theorem mem_traitsOfAll {name : String} {ds : List Dictionary} :
    name ∈ traitsOfAll ds ↔ ∃ d ∈ ds, name ∈ d.traits := by
  induction ds with
  | nil => simp [traitsOfAll]
  | cons d ds ih => simp [traitsOfAll, ih]

theorem mem_traits_of_contains {d d' : Dictionary} (h : d.Contains d') :
    d'.traitName ∈ d.traits := by
  induction h with
  | refl d => simp [traits_eq]
  | super hsup _ ih =>
    rw [traits_eq]
    exact List.mem_cons_of_mem _ (mem_traitsOfAll.2 ⟨_, hsup, ih⟩)

mutual

theorem exists_contains_of_mem_traits {name : String} : ∀ d : Dictionary, name ∈ d.traits →
    ∃ d', d.Contains d' ∧ d'.traitName = name
  | ⟨id, traitName, key, methods, supers⟩, h => by
    rw [traits] at h
    rcases List.mem_cons.1 h with rfl | h
    · exact ⟨_, .refl _, rfl⟩
    · obtain ⟨sup, hsup, d', hd', hname⟩ := exists_contains_of_mem_traitsOfAll supers h
      exact ⟨d', .super hsup hd', hname⟩

theorem exists_contains_of_mem_traitsOfAll {name : String} : ∀ ds : List Dictionary,
    name ∈ traitsOfAll ds → ∃ d ∈ ds, ∃ d', d.Contains d' ∧ d'.traitName = name
  | [], h => by
    rw [traitsOfAll] at h
    exact absurd h List.not_mem_nil
  | d :: ds, h => by
    rw [traitsOfAll] at h
    rcases List.mem_append.1 h with h | h
    · exact ⟨d, List.mem_cons_self, exists_contains_of_mem_traits d h⟩
    · obtain ⟨e, he, hrest⟩ := exists_contains_of_mem_traitsOfAll ds h
      exact ⟨e, List.mem_cons_of_mem d he, hrest⟩

end

mutual

/-- What is recovered is a dictionary of the trait from below. -/
theorem contains_of_findSuper {name : String} {d' : Dictionary} : ∀ d : Dictionary,
    d.findSuper name = some d' → d'.traitName = name ∧ ∃ sup ∈ d.supers, sup.Contains d'
  | ⟨id, traitName, key, methods, supers⟩, h => by
    rw [findSuper] at h
    exact contains_of_findIn supers h

theorem contains_of_findIn {name : String} {d' : Dictionary} : ∀ ds : List Dictionary,
    findIn name ds = some d' → d'.traitName = name ∧ ∃ d ∈ ds, d.Contains d'
  | [], h => by cases h
  | d :: ds, h => by
    rw [findIn] at h
    split at h
    · rename_i hname
      obtain rfl := Option.some.inj h
      exact ⟨hname, _, List.mem_cons_self, .refl _⟩
    · split at h
      · rename_i found hfound
        cases h
        obtain ⟨hname, sup, hsup, hd'⟩ := contains_of_findSuper d hfound
        exact ⟨hname, d, List.mem_cons_self, .super hsup hd'⟩
      · obtain ⟨hname, e, he, hd'⟩ := contains_of_findIn ds h
        exact ⟨hname, e, List.mem_cons_of_mem d he, hd'⟩

end

mutual

theorem findSuper_eq_none {name : String} : ∀ d : Dictionary,
    d.findSuper name = none → name ∉ traitsOfAll d.supers
  | ⟨id, traitName, key, methods, supers⟩, h => by
    rw [findSuper] at h
    exact findIn_eq_none supers h

theorem findIn_eq_none {name : String} : ∀ ds : List Dictionary,
    findIn name ds = none → name ∉ traitsOfAll ds
  | [], _ => by simp [traitsOfAll]
  | d :: ds, h => by
    rw [findIn] at h
    split at h
    · cases h
    · rename_i hname
      split at h
      · cases h
      · rename_i hnone
        have hd := findSuper_eq_none d hnone
        have hds := findIn_eq_none ds h
        simp only [traitsOfAll, traits_eq, List.mem_append, List.mem_cons, not_or]
        exact ⟨⟨fun heq => hname heq.symm, hd⟩, hds⟩

end

theorem findSuper_isSome_iff (d : Dictionary) (name : String) :
    (d.findSuper name).isSome = true ↔ name ∈ traitsOfAll d.supers := by
  cases h : d.findSuper name with
  | none => simpa using findSuper_eq_none d h
  | some d' =>
    obtain ⟨rfl, sup, hsup, hd'⟩ := contains_of_findSuper d h
    simpa using mem_traitsOfAll.2 ⟨sup, hsup, mem_traits_of_contains hd'⟩

end Dictionary

namespace Registry

open Dictionary

/-- A direct super-trait that has an instance. -/
def HasSuper (r : Registry) (key : TypeKey) (name sup : String) : Prop :=
  sup ∈ r.supers name ∧ r.hasInstance sup key = true

/-- A trait itself, its super-traits with instances, theirs, and so on. -/
def Reaches (r : Registry) (key : TypeKey) : String → String → Prop :=
  Relation.ReflTransGen (r.HasSuper key)

variable {r : Registry} {key : TypeKey} {traitName : String}

theorem length_methodsFrom (r : Registry) (key : TypeKey) (traitName : String) (id : Ident)
    (names : List String) : (r.methodsFrom key traitName id names).length = names.length := by
  induction names generalizing id with
  | nil => rfl
  | cons name names ih => rw [methodsFrom, List.length_cons, ih, List.length_cons]

namespace Searches

variable {sups : List String} {trail after : Trail} {ds : List Dictionary}

/-- A trail grows by the traits of the dictionaries. -/
theorem visited_eq (h : r.Searches key sups trail ds after) :
    after.visited = (traitsOfAll ds).reverse ++ trail.visited := by
  induction h with
  | nil => rfl
  | skip _ _ ih => exact ih
  | enter _ _ _ _ ihSupers ih =>
    rw [ih, ihSupers]
    simp [traitsOfAll, traits_eq, dictionaryAround, Trail.enter]

theorem mem_visited_iff (h : r.Searches key sups trail ds after) {name : String} :
    name ∈ after.visited ↔ name ∈ traitsOfAll ds ∨ name ∈ trail.visited := by
  rw [h.visited_eq, List.mem_append, List.mem_reverse]

/-- A trait has one dictionary, and it has none if it was met before. -/
theorem nodup (h : r.Searches key sups trail ds after) (hsound : trail.Sound r key) :
    (traitsOfAll ds).Nodup ∧ ∀ name ∈ traitsOfAll ds, name ∉ trail.visited := by
  have hnodup := (h.sound hsound).nodup
  rw [h.visited_eq, List.nodup_append] at hnodup
  obtain ⟨hds, -, hdisjoint⟩ := hnodup
  refine ⟨List.nodup_reverse.1 hds, fun name hname hmet => ?_⟩
  exact hdisjoint name (List.mem_reverse.2 hname) name hmet rfl

/-- No trait with an instance is left out: those that the search was asked for have been met, and so
have the super-traits of all that it met itself. -/
theorem closed (h : r.Searches key sups trail ds after) :
    (∀ sup ∈ sups, r.hasInstance sup key = true → sup ∈ after.visited) ∧
    ∀ name ∈ traitsOfAll ds, ∀ sup, r.HasSuper key name sup → sup ∈ after.visited := by
  induction h with
  | nil => simp [traitsOfAll]
  | @skip sup sups trail after ds hskip hrest ih =>
    refine ⟨fun other hother hinst => ?_, ih.2⟩
    rcases List.mem_cons.1 hother with rfl | hother
    · have hmet : other ∈ trail.visited := hskip.resolve_right (by simp [hinst])
      exact hrest.mem_visited_iff.2 (.inr hmet)
    · exact ih.1 other hother hinst
  | @enter sup sups trail between after supers ds hnew hinst hsupers hrest ihSupers ih =>
    -- what has been met below the first trait stays on the trail
    have hkept : ∀ name ∈ between.visited, name ∈ after.visited :=
      fun name hname => hrest.mem_visited_iff.2 (.inr hname)
    constructor
    · intro other hother hinst'
      rcases List.mem_cons.1 hother with rfl | hother
      · have hmet : other ∈ between.visited :=
          hsupers.mem_visited_iff.2 (.inr List.mem_cons_self)
        exact hkept other hmet
      · exact ih.1 other hother hinst'
    · intro name hname other hother
      simp only [traitsOfAll, traits_eq, List.mem_append, List.mem_cons] at hname
      rcases hname with (rfl | hname) | hname
      · exact hkept other (ihSupers.1 other hother.1 hother.2)
      · exact hkept other (ihSupers.2 name hname other hother)
      · exact ih.2 name hname other hother

/-- Every trait that the search meets is reached from one that it was asked for. -/
theorem reached (h : r.Searches key sups trail ds after) :
    ∀ name ∈ traitsOfAll ds,
      ∃ sup ∈ sups, r.hasInstance sup key = true ∧ r.Reaches key sup name := by
  induction h with
  | nil => simp [traitsOfAll]
  | skip _ _ ih =>
    intro name hname
    obtain ⟨sup, hsup, hreach⟩ := ih name hname
    exact ⟨sup, List.mem_cons_of_mem _ hsup, hreach⟩
  | enter _ hinst _ _ ihSupers ih =>
    intro name hname
    simp only [traitsOfAll, traits_eq, List.mem_append, List.mem_cons] at hname
    rcases hname with (rfl | hname) | hname
    · exact ⟨_, List.mem_cons_self, hinst, .refl⟩
    · obtain ⟨mid, hmid, hmidInst, hreach⟩ := ihSupers name hname
      exact ⟨_, List.mem_cons_self, hinst, .head ⟨hmid, hmidInst⟩ hreach⟩
    · obtain ⟨other, hother, hreach⟩ := ih name hname
      exact ⟨other, List.mem_cons_of_mem _ hother, hreach⟩

end Searches

/-- A dictionary of an instance that leaves nothing out: all dictionaries in it are for the key and
have a method for each one of their trait, no trait occurs twice, and those that occur are the ones
that can be reached. -/
structure Covers (r : Registry) (key : TypeKey) (traitName : String) (d : Dictionary) : Prop where
  traitName_eq : d.traitName = traitName
  lists : ∀ d', d.Contains d' → r.Lists key d'
  length_methods : ∀ d', d.Contains d' →
    d'.methods.length = (r.methodNames d'.traitName).length
  nodup : d.traits.Nodup
  mem_traits : ∀ name, name ∈ d.traits ↔ r.Reaches key traitName name

theorem Searches.covers {next : Ident} {d : Dictionary} {after : Trail}
    (h : r.Searches key [traitName] ⟨[], next⟩ [d] after) : r.Covers key traitName d := by
  have htraits : traitsOfAll [d] = d.traits := by simp [traitsOfAll]
  have hlists := h.lists d List.mem_cons_self
  have hname : d.traitName = traitName := by
    obtain ⟨supers, rfl⟩ := h.eq_dictionaryAround
    rfl
  have hmet : ∀ name, name ∈ after.visited ↔ name ∈ d.traits := by
    intro name
    rw [h.mem_visited_iff, htraits]
    simp
  have hnodup : d.traits.Nodup := htraits ▸ (h.nodup (.nil r key next)).1
  refine ⟨hname, hlists, fun d' hd' => ?_, hnodup, fun name => ⟨?_, ?_⟩⟩
  · obtain ⟨first, hmethods⟩ := (hlists d' hd').methods_eq
    rw [hmethods, length_methodsFrom]
  · intro hmem
    obtain ⟨sup, hsup, -, hreach⟩ := h.reached name (htraits ▸ hmem)
    rwa [List.mem_singleton.1 hsup] at hreach
  · -- the traits met are closed under super-traits with instances
    intro hreach
    induction hreach with
    | refl => simp [traits_eq, hname]
    | tail _ hstep ih =>
      exact (hmet _).1 (h.closed.2 _ (htraits.symm ▸ ih) _ hstep)

namespace Covers

variable {d : Dictionary}

/-- What can be recovered are the dictionaries of the other traits that can be reached. -/
theorem findSuper_isSome (h : r.Covers key traitName d) (name : String) :
    (d.findSuper name).isSome = true ↔ r.Reaches key traitName name ∧ name ≠ traitName := by
  have hnodup := h.nodup
  rw [findSuper_isSome_iff, ← h.mem_traits, traits_eq, h.traitName_eq, List.mem_cons]
  rw [traits_eq, h.traitName_eq, List.nodup_cons] at hnodup
  constructor
  · rintro hmem
    exact ⟨.inr hmem, fun heq => hnodup.1 (heq ▸ hmem)⟩
  · rintro ⟨heq | hmem, hne⟩
    · exact absurd heq hne
    · exact hmem

/-- Dictionary parameters for traits that can be reached all get their dictionaries. -/
theorem witnessBindings? (h : r.Covers key traitName d) (ps : List WitnessParam)
    (hps : ∀ p ∈ ps, r.Reaches key traitName p.traitName ∧ p.traitName ≠ traitName) :
    ∃ supers, List.Forall₂ (fun p sup => d.findSuper p.traitName = some sup) ps supers ∧
      TraitLang.witnessBindings? d ps [] =
        some (List.zipWith (fun p sup => (p.name, .dictionary sup)) ps supers) := by
  induction ps with
  | nil => exact ⟨[], .nil, rfl⟩
  | cons p ps ih =>
    obtain ⟨supers, hsupers, hbindings⟩ := ih fun q hq => hps q (List.mem_cons_of_mem p hq)
    obtain ⟨sup, hsup⟩ := Option.isSome_iff_exists.1
      ((h.findSuper_isSome p.traitName).2 (hps p List.mem_cons_self))
    refine ⟨sup :: supers, .cons hsup hsupers, ?_⟩
    simp [TraitLang.witnessBindings?, hsup, hbindings]

/-- A call that passes the dictionary alone binds all dictionary parameters, if those after the
first are for other traits that can be reached. -/
theorem bindScope_eq (h : r.Covers key traitName d) (a : Apply) (c : Closure) {xs : List Value}
    (hxs : plainArgs xs = xs) (site : CallSite) {p : WitnessParam} {ps : List WitnessParam}
    (hparams : c.func.witnessParams = p :: ps)
    (hps : ∀ q ∈ ps, r.Reaches key traitName q.traitName ∧ q.traitName ≠ traitName) :
    ∃ supers, List.Forall₂ (fun q sup => d.findSuper q.traitName = some sup) ps supers ∧
      Run.bindScope a c (.dictionary d :: xs) site = (do
        let scope ← Run.newScope c.scope
        Run.defineAll scope
          (List.zipWith (fun q sup => (q.name, .dictionary sup)) (p :: ps) (d :: supers))
        Run.bindTypes scope site
        Run.bindParams a c scope xs.length c.func.fixedParams xs
        Run.bindSurplus c.func scope xs
        return scope) := by
  obtain ⟨supers, hsupers, hbindings⟩ := h.witnessBindings? ps hps
  have hplain : plainArgs (.dictionary d :: xs) = xs := hxs
  have hleading : leadingDictionaries (.dictionary d :: xs) = [d] := by
    rw [leadingDictionaries, leadingDictionaries_of_plain hxs]
  have hbind (scope : ScopeId) : Run.bindDictionaries c.func scope [d] =
      Run.defineAll scope
        (List.zipWith (fun q sup => (q.name, .dictionary sup)) (p :: ps) (d :: supers)) := by
    have hall : TraitLang.witnessBindings? d (p :: ps) [d] = some
        (List.zipWith (fun q sup => (q.name, .dictionary sup)) (p :: ps) (d :: supers)) := by
      simp [TraitLang.witnessBindings?, hbindings]
    rw [Run.bindDictionaries, hparams, hall]
    rfl
  refine ⟨supers, hsupers, ?_⟩
  simp only [Run.bindScope, hplain, hleading, hbind]

end Covers

end Registry

namespace Run

variable {traitName : String} {key : TypeKey} {s : Setting} {m m' : Machine} {d : Dictionary}

theorem buildDictionary_failed (h : m.registry.hasInstance traitName key = false) :
    buildDictionary traitName key s m =
      .failed { cause := .noImplementation traitName key.text "<dictionary>" } m := by
  simp [buildDictionary, Registry.dictionary?, h]

/-- What is built is what the search from the trait makes. -/
theorem searches_of_buildDictionary (h : buildDictionary traitName key s m = .done d m') :
    ∃ after, m.registry.Searches key [traitName] ⟨[], m.nextIdent⟩ [d] after ∧
      m' = { m with nextIdent := after.nextIdent } := by
  unfold buildDictionary at h
  split at h
  · rename_i built next hbuilt
    cases h
    obtain ⟨after, hsearches, rfl⟩ := Registry.searches_of_dictionary? hbuilt
    exact ⟨after, hsearches, rfl⟩
  · cases h

theorem buildDictionary_done (h : m.registry.hasInstance traitName key = true) :
    ∃ d m', buildDictionary traitName key s m = .done d m' := by
  simp [buildDictionary, Registry.dictionary?, h]

end Run

/-- Building the dictionary of an instance comes to an end whatever the super-traits are. It fails
if there is no instance. Otherwise the result covers the traits that can be reached: those that can
be recovered from it are the dictionaries of the reachable traits but its own, and a call that
passes it alone binds all dictionary parameters of a function whose further parameters are for such
traits. -/
theorem buildDictionary_covers (traitName : String) (key : TypeKey) (s : Setting) (m : Machine) :
    (m.registry.hasInstance traitName key = false →
      ∃ f, Run.buildDictionary traitName key s m = .failed f m ∧ f.kind = .dispatch) ∧
    (m.registry.hasInstance traitName key = true → ∃ d after,
      Run.buildDictionary traitName key s m = .done d { m with nextIdent := after.nextIdent } ∧
      m.registry.Searches key [traitName] ⟨[], m.nextIdent⟩ [d] after ∧
      m.registry.Covers key traitName d ∧
      (∀ name, (d.findSuper name).isSome = true ↔
        m.registry.Reaches key traitName name ∧ name ≠ traitName) ∧
      (∀ name sup, d.findSuper name = some sup → sup.traitName = name ∧ d.Contains sup) ∧
      ∀ (a : Apply) (c : Closure) (xs : List Value) (site : CallSite) (p : WitnessParam)
        (ps : List WitnessParam), plainArgs xs = xs → c.func.witnessParams = p :: ps →
        (∀ q ∈ ps, m.registry.Reaches key traitName q.traitName ∧ q.traitName ≠ traitName) →
        ∃ supers, List.Forall₂ (fun q sup => d.findSuper q.traitName = some sup) ps supers ∧
          Run.bindScope a c (.dictionary d :: xs) site = (do
            let scope ← Run.newScope c.scope
            Run.defineAll scope
              (List.zipWith (fun q sup => (q.name, .dictionary sup)) (p :: ps) (d :: supers))
            Run.bindTypes scope site
            Run.bindParams a c scope xs.length c.func.fixedParams xs
            Run.bindSurplus c.func scope xs
            return scope)) := by
  constructor
  · intro hinst
    exact ⟨_, Run.buildDictionary_failed hinst, rfl⟩
  · intro hinst
    obtain ⟨d, m', hbuilt⟩ := Run.buildDictionary_done (s := s) hinst
    obtain ⟨after, hsearches, rfl⟩ := Run.searches_of_buildDictionary hbuilt
    have hcovers := hsearches.covers
    refine ⟨d, after, hbuilt, hsearches, hcovers, hcovers.findSuper_isSome, ?_, ?_⟩
    · intro name sup hsup
      obtain ⟨hname, e, he, hsup⟩ := Dictionary.contains_of_findSuper d hsup
      exact ⟨hname, .super he hsup⟩
    · intro a c xs site p ps hxs hparams hps
      exact hcovers.bindScope_eq a c hxs site hparams hps

end TraitLang
