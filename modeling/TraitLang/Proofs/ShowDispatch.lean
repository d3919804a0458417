import TraitLang.Proofs.Independence

/-!
What the methods of `Show` are resolved to. Main statement: with an argument in hand, and instances
of no more types than the method dispatches on, nothing but the registry and the arguments counts:
neither evidence, type contexts, containers and node types nor the call site.
-/
namespace TraitLang

theorem scoreKey_of_size_le {key : TypeKey} {types : List String} (h : key.size ≤ types.length)
    (contextName contextName' : Option String) :
    scoreKey key types contextName' = scoreKey key types contextName := by
  have hnone : key.parts.drop types.length = [] := List.drop_eq_nil_of_le h
  simp [scoreKey, hnone]

namespace Registry

variable {r : Registry} {m : ClassMethod} {types : List String}

/-- No instance has more types than the method dispatches on. -/
def Narrow (r : Registry) (m : ClassMethod) (types : List String) : Prop :=
  ∀ key ∈ r.instanceKeys m.traitName, key.size ≤ types.length

theorem Narrow.scoredKeys_eq (h : r.Narrow m types) (contextName contextName' : Option String) :
    r.scoredKeys m.traitName types contextName' = r.scoredKeys m.traitName types contextName := by
  have hscores : (r.instanceKeys m.traitName).map
        (fun key => (scoreKey key types contextName', key)) =
      (r.instanceKeys m.traitName).map fun key => (scoreKey key types contextName, key) := by
    apply List.map_congr_left
    intro key hkey
    rw [scoreKey_of_size_le (h key hkey) contextName]
  simp only [scoredKeys, hscores]

theorem Narrow.argumentCandidate?_eq (h : r.Narrow m types) (args : List Value)
    (contextName contextName' : Option String) :
    r.argumentCandidate? m types args contextName' =
      r.argumentCandidate? m types args contextName := by
  simp only [argumentCandidate?, h.scoredKeys_eq contextName contextName']

end Registry

namespace Machine

variable {mach mach' : Machine} {m : ClassMethod} {args : List Value}
  {site site' : CallSite}

/-- The same method was found for the same arguments, or a default is to be found for the same
arguments and types. -/
inductive Concur : Resolution ⊕ Fallback → Resolution ⊕ Fallback → Prop where
  | found {r r' : Resolution} : r'.callee = r.callee → r'.args = r.args → Concur (.inl r) (.inl r')
  | fallback {fb fb' : Fallback} : fb'.args = fb.args → fb'.types = fb.types →
      Concur (.inr fb) (.inr fb')

/-- With an argument in hand the expected type of a `Show` method is not asked. -/
theorem preferred?_of_show (hshow : m.traitName = "Show") (hargs : plainArgs args ≠ []) :
    mach.preferred? m args site = mach.argumentOffer? m args site := by
  unfold preferred?
  rw [ClassMethod.preferred?_show hshow, if_pos (by simpa using hargs), Option.or_none]

theorem argumentOffer?_of_narrow (hregistry : mach'.registry = mach.registry)
    (hnarrow : mach.registry.Narrow m (m.dispatchTypes (plainArgs args))) :
    mach'.argumentOffer? m args site' = mach.argumentOffer? m args site := by
  unfold argumentOffer?
  rw [hregistry, hnarrow.argumentCandidate?_eq]

theorem weigh_show (hshow : m.traitName = "Show") (hregistry : mach'.registry = mach.registry)
    (hargs : plainArgs args ≠ [])
    (hnarrow : mach.registry.Narrow m (m.dispatchTypes (plainArgs args))) :
    Concur (mach.weigh m args site) (mach'.weigh m args site') := by
  have hsame : mach'.preferred? m args site' = mach.preferred? m args site := by
    rw [preferred?_of_show hshow hargs, preferred?_of_show hshow hargs,
      argumentOffer?_of_narrow hregistry hnarrow]
  cases hfound : mach.preferred? m args site with
  | none =>
    rw [weigh_of_not_preferred hfound, weigh_of_not_preferred (hsame.trans hfound)]
    exact .fallback rfl rfl
  | some found =>
    obtain ⟨witness, hweigh⟩ := weigh_of_preferred hfound
    obtain ⟨witness', hweigh'⟩ := weigh_of_preferred (hsame.trans hfound)
    rw [hweigh, hweigh']
    exact .found rfl rfl

theorem select_show (hshow : m.traitName = "Show") (harity : 1 ≤ m.arity)
    (hregistry : mach'.registry = mach.registry) (hargs : plainArgs args ≠ [])
    (hnarrow : mach.registry.Narrow m (m.dispatchTypes (plainArgs args)))
    (site site' : CallSite) :
    Concur (mach.select m args site) (mach'.select m args site') := by
  have hevidence (mach : Machine) : mach.witnessCandidate? m = none := by
    unfold witnessCandidate?
    rw [if_neg (by omega)]
  unfold select
  rw [hregistry, hevidence, hevidence]
  rcases hdict : mach.registry.byDictionary m args with ⟨found?, rest⟩
  cases found? with
  | some callee => exact .found rfl rfl
  | none =>
    -- what is left after the dictionaries has the same arguments behind it
    have hplain := (Registry.stripped_of_byDictionary hdict).plainArgs_eq
    rw [← hplain] at hargs hnarrow
    exact weigh_show hshow hregistry hargs hnarrow

end Machine

namespace Interpreter

variable {i j : Interpreter} {m : ClassMethod} {args : List Value}

/-- The same definition for the same arguments, or the same failure. -/
def SameResult (x y : Option (Except Fault Resolution)) : Prop := ∀ v, Alike False v x y

/-- A `Show` method with a parameter is resolved, for an argument in hand, to the same definition
and arguments, or fails in the same way, in any two interpreters with the same registry, whatever
their stacks, hints and stores and wherever the two calls are made, if no instance has more types
than the method dispatches on. -/
theorem resolve_show (hi : i.Unwatched) (hj : j.Unwatched)
    (hregistry : j.machine.registry = i.machine.registry) (hshow : m.traitName = "Show")
    (harity : 1 ≤ m.arity) (hargs : plainArgs args ≠ [])
    (hnarrow : i.machine.registry.Narrow m (m.dispatchTypes (plainArgs args)))
    (site site' : CallSite) :
    SameResult (i.resolve m args site).1 (j.resolve m args site').1 := by
  intro v
  rw [resolve_fst hi, resolve_fst hj]
  have hconcur := Machine.select_show hshow harity hregistry hargs hnarrow site site'
  generalize i.machine.select m args site = before at hconcur ⊢
  generalize j.machine.select m args site' = after at hconcur ⊢
  cases hconcur with
  | found hcallee hargs => exact .same (hcallee ▸ .refl _) hargs
  | fallback hargs htypes =>
    exact resolveDefault_alike (by rw [hregistry]) (by rw [hregistry]) hargs htypes

namespace Showing

def shows : ClassMethod := { traitName := "Show", method := "show", arity := 1 }

/-- Takes what is of the type. -/
def showing (type : String) : Value :=
  .builtin
    { id := 0, name := type, native := .host type
      signature := some (.fn [.con type] (.con "String")), defaults := [] }

/-- Shows strings and integers, and has a default. -/
def plain : Interpreter where
  setting := {}
  machine :=
    { registry :=
        { instances := [("Show", [(.single "String", [("show", showing "String")]),
            (.single "Int", [("show", showing "Int")])])]
          userDefaults := [("Show", [("show", ⟨"show", [⟨"x", none, none, false⟩], none, [], [],
            ⟨.lit (.str "?"), {}⟩, {}⟩)])] } }

/-- Has evidence for strings and expects nothing but strings. -/
def expectant : Interpreter where
  setting := {}
  machine :=
    { plain.machine with
      hints := { nodeTypes := [(7, .con "String")] }
      witnesses := ⟨#[.single "Show" (.con "String")]⟩
      typeContext := ⟨#[.con "String"]⟩
      containers := ⟨#["String"]⟩
      nextIdent := 5 }

end Showing

open Showing in
/-- An integer is shown as one and a truth value by the default, also where strings are expected. -/
theorem resolve_show_expectant :
    plain.machine.registry.Narrow shows ["Int"] ∧
    SameResult (plain.resolve shows [.int 7] { name := "show" }).1
      (expectant.resolve shows [.int 7]
        { name := "show", node := some 7, annotation := some (.con "String") }).1 ∧
    SameResult (plain.resolve shows [.bool true] { name := "show" }).1
      (expectant.resolve shows [.bool true]
        { name := "show", node := some 7, annotation := some (.con "String") }).1 := by
  have hnarrow (type : String) : plain.machine.registry.Narrow shows [type] := by
    show ∀ key ∈ plain.machine.registry.instanceKeys "Show", key.size ≤ 1
    decide
  refine ⟨hnarrow "Int", ?_, ?_⟩
  · have hplain : plainArgs [.int 7] ≠ [] := List.cons_ne_nil _ _
    exact resolve_show (i := plain) (j := expectant) (fun _ _ => rfl) (fun _ _ => rfl) rfl rfl
      (by decide) hplain (hnarrow "Int") _ _
  · have hplain : plainArgs [.bool true] ≠ [] := List.cons_ne_nil _ _
    exact resolve_show (i := plain) (j := expectant) (fun _ _ => rfl) (fun _ _ => rfl) rfl rfl
      (by decide) hplain (hnarrow "Bool") _ _

end Interpreter

end TraitLang
