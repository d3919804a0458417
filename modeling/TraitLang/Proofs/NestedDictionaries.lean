import TraitLang.Proofs.SuperTraits
import Mathlib.Data.List.Pairwise

/-!
Dictionaries inside dictionaries. A search meets a trait once, so what a nested dictionary has below
it depends on what was met before. Main statement: a dictionary that is nested in another one is, up
to identities, the one that is built for its own trait exactly if nothing that its trait can reach
was met before; this holds throughout where no two traits have a super-trait in common. Of two
traits that have one in common the second goes without it.
-/
namespace TraitLang

/-- The value without the identity that it got when a dictionary was built. -/
def Value.anonymous : Value → Value
  | .function _ c => .function 0 c
  | .method _ m => .method 0 m
  | v => v

namespace Dictionary

mutual

/-- Traits, keys and methods of a dictionary and of all that it contains, without identities. -/
def anonymous : Dictionary → Dictionary
  | ⟨_, name, key, methods, supers⟩ =>
    ⟨0, name, key, methods.map Value.anonymous, anonymousAll supers⟩

def anonymousAll : List Dictionary → List Dictionary
  | [] => []
  | d :: ds => d.anonymous :: anonymousAll ds

end

mutual

theorem traits_anonymous : ∀ d : Dictionary, d.anonymous.traits = d.traits
  | ⟨id, name, key, methods, supers⟩ => by
    rw [anonymous, traits, traits, traitsOfAll_anonymousAll supers]

theorem traitsOfAll_anonymousAll : ∀ ds : List Dictionary,
    traitsOfAll (anonymousAll ds) = traitsOfAll ds
  | [] => rfl
  | d :: ds => by
    rw [anonymousAll, traitsOfAll, traitsOfAll, traits_anonymous d, traitsOfAll_anonymousAll ds]

end

theorem Contains.trans {d d' d'' : Dictionary} (h : d.Contains d') (h' : d'.Contains d'') :
    d.Contains d'' := by
  induction h with
  | refl => exact h'
  | super hsup _ ih => exact .super hsup (ih h')

theorem Contains.eq_or_exists_parent {d d' : Dictionary} (h : d.Contains d') :
    d' = d ∨ ∃ parent, d.Contains parent ∧ d' ∈ parent.supers := by
  induction h with
  | refl d => exact .inl rfl
  | @super d sup d' hsup _ ih =>
    rcases ih with rfl | ⟨parent, hparent, hd'⟩
    · exact .inr ⟨d, .refl d, hsup⟩
    · exact .inr ⟨parent, .super hsup hparent, hd'⟩

theorem traitsOfAll_eq_flatMap (ds : List Dictionary) : traitsOfAll ds = ds.flatMap traits := by
  induction ds with
  | nil => rfl
  | cons d ds ih => rw [traitsOfAll, ih, List.flatMap_cons]

/-- Where no trait occurs twice, it tells which dictionary is meant. -/
theorem Contains.eq_of_traitName_eq {d x y : Dictionary} (hnodup : d.traits.Nodup)
    (hx : d.Contains x) (hy : d.Contains y) (hname : x.traitName = y.traitName) : x = y := by
  induction hx with
  | refl d =>
    rw [traits_eq, List.nodup_cons] at hnodup
    cases hy with
    | refl => rfl
    | super hsup hy =>
      have hmem := mem_traitsOfAll.2 ⟨_, hsup, mem_traits_of_contains hy⟩
      exact absurd (hname ▸ hmem) hnodup.1
  | @super d sup x hsup hx ih =>
    rw [traits_eq, List.nodup_cons] at hnodup
    cases hy with
    | refl =>
      have hmem := mem_traitsOfAll.2 ⟨sup, hsup, mem_traits_of_contains hx⟩
      exact absurd (hname ▸ hmem) hnodup.1
    | @super _ sup' _ hsup' hy =>
      rw [traitsOfAll_eq_flatMap, List.nodup_flatMap] at hnodup
      obtain ⟨-, hnodups, hdisjoint⟩ := hnodup
      have hsame : sup = sup' := by
        by_contra hne
        have : Std.Symm (Function.onFun List.Disjoint traits) := ⟨fun _ _ h _ hx hy => h hy hx⟩
        have hapart := hdisjoint.forall hsup hsup' hne
        exact hapart (mem_traits_of_contains hx) (hname ▸ mem_traits_of_contains hy)
      subst hsame
      exact ih (hnodups sup hsup) hy hname

end Dictionary

namespace Registry

open Dictionary

/-- No trait is among its own super-traits at any depth. -/
def Acyclic (r : Registry) : Prop :=
  ∀ name, ¬ Relation.TransGen (fun name sup => sup ∈ r.supers name) name name

/-- No two traits that can be reached have a super-trait with an instance in common. -/
def SharesNoSuper (r : Registry) (key : TypeKey) (traitName : String) : Prop :=
  ∀ a b sup, r.Reaches key traitName a → r.Reaches key traitName b → r.HasSuper key a sup →
    r.HasSuper key b sup → a = b

theorem exists_entry_of_mem_supers {r : Registry} {name sup : String} (h : sup ∈ r.supers name) :
    ∃ e ∈ r.superTraits, e.1 = name ∧ sup ∈ e.2 := by
  unfold supers at h
  cases hlookup : r.superTraits.lookup name with
  | none =>
    rw [hlookup] at h
    exact absurd h List.not_mem_nil
  | some sups =>
    rw [hlookup] at h
    exact ⟨(name, sups), Assoc.mem_of_lookup hlookup, rfl, h⟩

/-- Super-traits that are of lower rank exclude cycles. -/
theorem acyclic_of_rank {r : Registry} (rank : String → Nat)
    (h : ∀ e ∈ r.superTraits, ∀ sup ∈ e.2, rank sup < rank e.1) : r.Acyclic := by
  have hstep : ∀ {name sup}, sup ∈ r.supers name → rank sup < rank name := by
    intro name sup hsup
    obtain ⟨e, he, rfl, hmem⟩ := exists_entry_of_mem_supers hsup
    exact h e he sup hmem
  have hpath : ∀ {a b}, Relation.TransGen (fun name sup => sup ∈ r.supers name) a b →
      rank b < rank a := by
    intro a b h
    induction h with
    | single h => exact hstep h
    | tail _ h ih => exact Nat.lt_trans (hstep h) ih
  exact fun name hcycle => Nat.lt_irrefl _ (hpath hcycle)

variable {r : Registry} {key : TypeKey} {traitName : String}

theorem anonymous_methodOrDefault (r : Registry) (key : TypeKey) (traitName method : String)
    (id id' : Ident) :
    (r.methodOrDefault key traitName id method).anonymous =
      (r.methodOrDefault key traitName id' method).anonymous := by
  unfold methodOrDefault
  cases r.lookup? traitName key method with
  | some v => rfl
  | none =>
    cases r.userDefault? traitName method with
    | some f => rfl
    | none => cases r.builtinDefault? traitName method <;> rfl

theorem anonymous_methodsFrom (r : Registry) (key : TypeKey) (traitName : String) (id id' : Ident)
    (names : List String) :
    (r.methodsFrom key traitName id names).map Value.anonymous =
      (r.methodsFrom key traitName id' names).map Value.anonymous := by
  induction names generalizing id id' with
  | nil => rfl
  | cons name names ih =>
    rw [methodsFrom, methodsFrom, List.map_cons, List.map_cons, ih (id + 1) (id' + 1),
      anonymous_methodOrDefault r key traitName name id id']

namespace Searches

variable {sups : List String} {trail after : Trail} {ds : List Dictionary}

/-- Two searches for the same traits make the same dictionaries if the trails agree on a set of
traits that the searches do not leave. -/
theorem anonymousAll_eq {A : String → Prop}
    (hA : ∀ name sup, A name → r.HasSuper key name sup → A sup)
    (h : r.Searches key sups trail ds after) {trail' after' : Trail} {ds' : List Dictionary}
    (h' : r.Searches key sups trail' ds' after')
    (hsups : ∀ sup ∈ sups, r.hasInstance sup key = true → A sup)
    (hagree : ∀ name, A name → (name ∈ trail.visited ↔ name ∈ trail'.visited)) :
    anonymousAll ds = anonymousAll ds' ∧
      ∀ name, A name → (name ∈ after.visited ↔ name ∈ after'.visited) := by
  induction h generalizing trail' after' ds' with
  | nil =>
    cases h' with
    | nil => exact ⟨rfl, hagree⟩
  | @skip sup sups trail after ds hskip hrest ih =>
    have hrestSups : ∀ other ∈ sups, r.hasInstance other key = true → A other :=
      fun other hother => hsups other (List.mem_cons_of_mem sup hother)
    cases h' with
    | skip _ hrest' => exact ih hrest' hrestSups hagree
    | enter hnew' hinst' _ _ =>
      rcases hskip with hmet | hnone
      · exact absurd ((hagree sup (hsups sup List.mem_cons_self hinst')).1 hmet) hnew'
      · rw [hinst'] at hnone
        cases hnone
  | @enter sup sups trail between after supers ds hnew hinst hsupers hrest ihSupers ih =>
    have hsup : A sup := hsups sup List.mem_cons_self hinst
    have hrestSups : ∀ other ∈ sups, r.hasInstance other key = true → A other :=
      fun other hother => hsups other (List.mem_cons_of_mem sup hother)
    cases h' with
    | skip hskip' _ =>
      rcases hskip' with hmet | hnone
      · exact absurd ((hagree sup hsup).2 hmet) hnew
      · rw [hinst] at hnone
        cases hnone
    | @enter _ _ _ between' _ supers' ds' hnew' _ hsupers' hrest' =>
      have hentered : ∀ name, A name → (name ∈ (trail.enter r sup).visited ↔
          name ∈ (trail'.enter r sup).visited) := by
        intro name hname
        simp only [Trail.enter, List.mem_cons, hagree name hname]
      obtain ⟨hbelow, hbetween⟩ := ihSupers hsupers'
        (fun other hother hinst => hA sup other hsup ⟨hother, hinst⟩) hentered
      obtain ⟨hbeside, hafter⟩ := ih hrest' hrestSups hbetween
      refine ⟨?_, hafter⟩
      simp only [anonymousAll, dictionaryAround, anonymous, hbelow, hbeside,
        anonymous_methodsFrom r key sup (trail.nextIdent + 1) (trail'.nextIdent + 1)]

/-- Every nested dictionary comes from a search of its own that went on where another one was. -/
theorem nested (h : r.Searches key sups trail ds after) (hsound : trail.Sound r key) :
    ∀ d ∈ ds, ∀ d', d.Contains d' → ∃ before after', before.Sound r key ∧
      r.Searches key [d'.traitName] before [d'] after' := by
  induction h with
  | nil => exact fun _ hd => absurd hd List.not_mem_nil
  | skip _ _ ih => exact ih hsound
  | @enter sup sups trail between after supers ds hnew hinst hsupers _ ihSupers ih =>
    have hentered : (trail.enter r sup).Sound r key := hsound.cons hnew hinst _
    intro d hd d' hd'
    rcases List.mem_cons.1 hd with rfl | hd
    · cases hd' with
      | refl => exact ⟨trail, between, hsound, .enter hnew hinst hsupers (.nil _)⟩
      | super hsup h => exact ihSupers hentered _ hsup d' h
    · exact ih (hsupers.sound hentered) d hd d' hd'

theorem asked (h : r.Searches key sups trail ds after) :
    ∀ d ∈ ds, d.traitName ∈ sups ∧ r.hasInstance d.traitName key = true := by
  induction h with
  | nil => exact fun _ hd => absurd hd List.not_mem_nil
  | skip _ _ ih => exact fun d hd => ⟨List.mem_cons_of_mem _ (ih d hd).1, (ih d hd).2⟩
  | enter _ hinst _ _ _ ih =>
    intro d hd
    rcases List.mem_cons.1 hd with rfl | hd
    · exact ⟨List.mem_cons_self, hinst⟩
    · exact ⟨List.mem_cons_of_mem _ (ih d hd).1, (ih d hd).2⟩

theorem hasInstance (h : r.Searches key sups trail ds after) :
    ∀ d ∈ ds, ∀ d', d.Contains d' → r.hasInstance d'.traitName key = true := by
  intro d hd d' hd'
  have hmem := mem_traitsOfAll.2 ⟨d, hd, mem_traits_of_contains hd'⟩
  obtain ⟨sup, -, hinst, hreach⟩ := h.reached _ hmem
  cases hreach.cases_tail with
  | inl heq => exact heq ▸ hinst
  | inr hstep =>
    obtain ⟨_, -, hsuper⟩ := hstep
    exact hsuper.2

/-- What a dictionary has directly below it are dictionaries of direct super-traits. -/
theorem hasSuper (h : r.Searches key sups trail ds after) :
    ∀ d ∈ ds, ∀ d', d.Contains d' → ∀ sup ∈ d'.supers,
      r.HasSuper key d'.traitName sup.traitName := by
  induction h with
  | nil => exact fun _ hd => absurd hd List.not_mem_nil
  | skip _ _ ih => exact ih
  | enter _ _ hsupers _ ihSupers ih =>
    intro d hd d' hd'
    rcases List.mem_cons.1 hd with rfl | hd
    · cases hd' with
      | refl => exact hsupers.asked
      | super hsup h => exact ihSupers _ hsup d' h
    · exact ih d hd d' hd'

variable {next next' : Ident} {d d' d₀ : Dictionary} {after₀ : Trail}

/-- A nested dictionary is the one that is built for its trait exactly if no trait that this one can
reach is missing from it. -/
theorem nested_anonymous_iff (h : r.Searches key [traitName] ⟨[], next⟩ [d] after)
    (hd' : d.Contains d') (h₀ : r.Searches key [d'.traitName] ⟨[], next'⟩ [d₀] after₀) :
    d'.anonymous = d₀.anonymous ↔ ∀ name, r.Reaches key d'.traitName name → name ∈ d'.traits := by
  constructor
  · intro hsame name hreach
    have hmem := (h₀.covers.mem_traits name).2 hreach
    rwa [← traits_anonymous, ← hsame, traits_anonymous] at hmem
  · intro hall
    obtain ⟨before, after', hbefore, hnested⟩ :=
      h.nested (.nil r key next) d List.mem_cons_self d' hd'
    -- nothing that can be reached was met before, as the nested dictionary has it itself
    have hunmet : ∀ name, r.Reaches key d'.traitName name →
        (name ∈ before.visited ↔ name ∈ ([] : List String)) := by
      intro name hreach
      have hmem : name ∈ traitsOfAll [d'] := mem_traitsOfAll.2 ⟨d', by simp, hall name hreach⟩
      simp [(hnested.nodup hbefore).2 name hmem]
    have hsame := (hnested.anonymousAll_eq (A := r.Reaches key d'.traitName)
      (fun _ _ hreach hstep => hreach.tail hstep) h₀
      (fun sup hsup _ => List.mem_singleton.1 hsup ▸ .refl) hunmet).1
    simpa [anonymousAll] using hsame

/-- Without cycles and common super-traits nothing is missing from a nested dictionary. -/
theorem mem_traits_nested (h : r.Searches key [traitName] ⟨[], next⟩ [d] after)
    (hacyclic : r.Acyclic) (hshares : r.SharesNoSuper key traitName) (hd' : d.Contains d')
    {name : String} (hreach : r.Reaches key d'.traitName name) : name ∈ d'.traits := by
  have hcovers := h.covers
  induction hreach with
  | refl => exact mem_traits_of_contains (.refl d')
  | @tail name sup _ hstep ih =>
    obtain ⟨e, he, rfl⟩ := exists_contains_of_mem_traits d' ih
    have hreachE : r.Reaches key traitName e.traitName :=
      (hcovers.mem_traits _).1 (mem_traits_of_contains (hd'.trans he))
    obtain ⟨f, hf, rfl⟩ :=
      exists_contains_of_mem_traits d ((hcovers.mem_traits sup).2 (hreachE.tail hstep))
    rcases hf.eq_or_exists_parent with rfl | ⟨parent, hparent, hbelow⟩
    · -- the trait of the whole dictionary would be its own super-trait
      rw [hcovers.traitName_eq] at hstep
      have hsub : r.HasSuper key ≤ fun name sup => sup ∈ r.supers name := fun _ _ hsuper => hsuper.1
      have hpath := Relation.ReflTransGen.mono hsub _ _ hreachE
      exact absurd (Relation.TransGen.tail' hpath hstep.1) (hacyclic traitName)
    · -- the dictionary above it can only be that of the trait at hand
      have hreachParent : r.Reaches key traitName parent.traitName :=
        (hcovers.mem_traits _).1 (mem_traits_of_contains hparent)
      have hname : parent.traitName = e.traitName := hshares _ _ _ hreachParent hreachE
        (h.hasSuper d List.mem_cons_self parent hparent f hbelow) hstep
      have hsame : parent = e :=
        hparent.eq_of_traitName_eq hcovers.nodup (hd'.trans he) hname
      exact mem_traits_of_contains (he.trans (.super (hsame ▸ hbelow) (.refl f)))

end Searches

end Registry

/-- Whatever is nested in the dictionary of an instance can be built on its own, and is the same
then exactly if a dictionary of every trait that its own trait can reach is nested in it. So it is,
and can answer for all these traits, where super-traits form no cycles and no two traits have one in
common. -/
theorem buildDictionary_nested {traitName : String} {key : TypeKey} {s : Setting} {m m' : Machine}
    {d : Dictionary} (h : Run.buildDictionary traitName key s m = .done d m') :
    (∀ d', d.Contains d' → ∃ d₀ m₀,
      Run.buildDictionary d'.traitName key s m = .done d₀ m₀ ∧
      (d'.anonymous = d₀.anonymous ↔
        ∀ name, m.registry.Reaches key d'.traitName name → name ∈ d'.traits)) ∧
    (m.registry.Acyclic → m.registry.SharesNoSuper key traitName → ∀ d', d.Contains d' → ∃ d₀ m₀,
      Run.buildDictionary d'.traitName key s m = .done d₀ m₀ ∧ d'.anonymous = d₀.anonymous ∧
      ∀ name, m.registry.Reaches key d'.traitName name → name ≠ d'.traitName →
        (d'.findSuper name).isSome = true) := by
  obtain ⟨after, hsearches, -⟩ := Run.searches_of_buildDictionary h
  have hiff : ∀ d', d.Contains d' → ∃ d₀ m₀,
      Run.buildDictionary d'.traitName key s m = .done d₀ m₀ ∧
      (d'.anonymous = d₀.anonymous ↔
        ∀ name, m.registry.Reaches key d'.traitName name → name ∈ d'.traits) := by
    intro d' hd'
    have hinst := hsearches.hasInstance d List.mem_cons_self d' hd'
    obtain ⟨d₀, m₀, hbuilt⟩ := Run.buildDictionary_done (s := s) hinst
    obtain ⟨after₀, hsearches₀, -⟩ := Run.searches_of_buildDictionary hbuilt
    exact ⟨d₀, m₀, hbuilt, hsearches.nested_anonymous_iff hd' hsearches₀⟩
  refine ⟨hiff, fun hacyclic hshares d' hd' => ?_⟩
  obtain ⟨d₀, m₀, hbuilt, hsame⟩ := hiff d' hd'
  have hall : ∀ name, m.registry.Reaches key d'.traitName name → name ∈ d'.traits :=
    fun name => hsearches.mem_traits_nested hacyclic hshares hd'
  refine ⟨d₀, m₀, hbuilt, hsame.2 hall, fun name hreach hne => ?_⟩
  have hmem := hall name hreach
  rw [Dictionary.traits_eq] at hmem
  exact (d'.findSuper_isSome_iff name).2 ((List.mem_cons.1 hmem).resolve_left hne)

/-- Traits of integers in which each one is a direct super-trait of one other at most. -/
def numbers : Registry where
  instances :=
    [("Num", [(.single "Int", [])]), ("Ord", [(.single "Int", [])]), ("Eq", [(.single "Int", [])]),
      ("Show", [(.single "Int", [])])]
  superTraits := [("Num", ["Ord", "Show"]), ("Ord", ["Eq"])]

theorem buildDictionary_nested_numbers :
    ∃ d m' ord, Run.buildDictionary "Num" (.single "Int") {} { registry := numbers } = .done d m' ∧
      d.Contains ord ∧ ord.traitName = "Ord" ∧ numbers.Acyclic ∧
      numbers.SharesNoSuper (.single "Int") "Num" ∧ ∃ d₀ m₀,
        Run.buildDictionary "Ord" (.single "Int") {} { registry := numbers } = .done d₀ m₀ ∧
        ord.anonymous = d₀.anonymous ∧ (ord.findSuper "Eq").isSome = true := by
  have hbuilt : ∃ d m' ord, Run.buildDictionary "Num" (.single "Int") {} { registry := numbers } =
      .done d m' ∧ d.Contains ord ∧ ord.traitName = "Ord" :=
    ⟨_, _, _, rfl, .super List.mem_cons_self (.refl _), rfl⟩
  have hacyclic : numbers.Acyclic :=
    Registry.acyclic_of_rank (fun name => if name = "Num" then 2 else if name = "Ord" then 1 else 0)
      (by decide)
  have hshares : numbers.SharesNoSuper (.single "Int") "Num" := by
    have hparent : ∀ e ∈ numbers.superTraits, ∀ sup ∈ e.2,
        e.1 = if sup = "Eq" then "Ord" else "Num" := by decide
    intro a b sup _ _ ha hb
    obtain ⟨e, he, rfl, hsup⟩ := Registry.exists_entry_of_mem_supers ha.1
    obtain ⟨e', he', rfl, hsup'⟩ := Registry.exists_entry_of_mem_supers hb.1
    rw [hparent e he sup hsup, hparent e' he' sup hsup']
  obtain ⟨d, m', ord, hbuilt, hord, hname⟩ := hbuilt
  obtain ⟨d₀, m₀, hbuilt₀, hsame, hall⟩ :=
    (buildDictionary_nested hbuilt).2 hacyclic hshares ord hord
  rw [hname] at hbuilt₀ hall
  have heq : numbers.Reaches (.single "Int") "Ord" "Eq" := .single ⟨by decide, by decide⟩
  exact ⟨d, m', ord, hbuilt, hord, hname, hacyclic, hshares, d₀, m₀, hbuilt₀, hsame,
    hall "Eq" heq (by decide)⟩

/-- Two super-traits of a trait have one in common. -/
def diamond : Registry where
  instances :=
    [("Field", [(.single "Int", [])]), ("Ring", [(.single "Int", [])]),
      ("Ordered", [(.single "Int", [])]), ("Eq", [(.single "Int", [])])]
  superTraits := [("Field", ["Ring", "Ordered"]), ("Ring", ["Eq"]), ("Ordered", ["Eq"])]

/-- The second of them goes without it: the dictionary that is nested for it cannot answer for the
common super-trait, the one that is built on its own can. -/
theorem nested_lacks_shared_super :
    diamond.Acyclic ∧ ∃ d m' ordered d₀ m₀,
      Run.buildDictionary "Field" (.single "Int") {} { registry := diamond } = .done d m' ∧
      d.Contains ordered ∧ ordered.traitName = "Ordered" ∧
      Run.buildDictionary "Ordered" (.single "Int") {} { registry := diamond } = .done d₀ m₀ ∧
      ordered.anonymous ≠ d₀.anonymous ∧
      ordered.findSuper "Eq" = none ∧ (d₀.findSuper "Eq").isSome = true := by
  constructor
  · exact Registry.acyclic_of_rank
      (fun name => if name = "Field" then 2 else if name = "Eq" then 0 else 1) (by decide)
  · refine ⟨_, _, _, _, _, rfl, .super (List.mem_cons_of_mem _ List.mem_cons_self) (.refl _), rfl,
      rfl, fun hsame => ?_, rfl, rfl⟩
    have htraits := congrArg Dictionary.traits hsame
    revert htraits
    decide

end TraitLang
