import TraitLang.Proofs.Resolution

/-!
The default of a trait becomes a method of the instance that it was found for. Main statement:
resolving a method changes at most that one entry of the table of instances, and it does so whether
or not the entry was there. A method of an instance that dispatch passed over is lost.
-/
namespace TraitLang

namespace Registry

/-- Whatever could be looked up still can be, with the same value. -/
def KeepsEntries (r r' : Registry) : Prop :=
  ∀ traitName key method v, r.lookup? traitName key method = some v →
    r'.lookup? traitName key method = some v

theorem table_addMethod (r : Registry) (traitName : String) (key : TypeKey) (method : String)
    (v : Value) (traitName' : String) :
    (r.addMethod traitName key method v).table traitName' =
      if traitName' = traitName then
        Assoc.insert key (Assoc.insert method v (((r.table traitName).lookup key).getD []))
          (r.table traitName)
      else r.table traitName' := by
  unfold addMethod table
  rw [Assoc.lookup_insert]
  by_cases htrait : traitName' = traitName
  · simp [htrait]
  · simp [htrait]

theorem lookup?_addMethod (r : Registry) (traitName : String) (key : TypeKey) (method : String)
    (v : Value) (traitName' : String) (key' : TypeKey) (method' : String) :
    (r.addMethod traitName key method v).lookup? traitName' key' method' =
      if traitName' = traitName ∧ key' = key ∧ method' = method then some v
      else r.lookup? traitName' key' method' := by
  unfold lookup?
  rw [table_addMethod]
  by_cases htrait : traitName' = traitName
  · subst htrait
    rw [if_pos rfl, Assoc.lookup_insert]
    by_cases hkey : key' = key
    · subst hkey
      simp only [BEq.rfl, if_true, Option.bind_some, Assoc.lookup_insert]
      by_cases hmethod : method' = method
      · simp [hmethod]
      · cases (r.table traitName').lookup key' <;> simp [hmethod]
    · simp [hkey]
  · simp [htrait]

/-- An instance without methods adds none. -/
theorem lookup?_addInstance (r : Registry) (traitName : String) (key : TypeKey)
    (traitName' : String) (key' : TypeKey) (method : String) :
    (r.addInstance traitName key).lookup? traitName' key' method =
      r.lookup? traitName' key' method := by
  by_cases htrait : traitName' = traitName
  · subst htrait
    have htable : (r.addInstance traitName' key).table traitName' =
        if Assoc.contains key (r.table traitName') then r.table traitName'
        else Assoc.insert key [] (r.table traitName') := by
      simp [addInstance, table]
    rw [lookup?, lookup?, htable]
    split
    · rfl
    · rename_i hnew
      by_cases hkey : key' = key
      · subst hkey
        rw [Bool.not_eq_true, Assoc.contains, Option.isSome_eq_false_iff] at hnew
        simp [Option.isNone_iff_eq_none.1 hnew]
      · rw [Assoc.lookup_insert_of_ne hkey]
  · simp [lookup?, table, addInstance, Assoc.lookup_insert_of_ne htrait]

theorem builtinDefault?_addBuiltinDefault (r : Registry) (traitName method : String) (v : Value)
    (traitName' method' : String) :
    (r.addBuiltinDefault traitName method v).builtinDefault? traitName' method' =
      if traitName' = traitName ∧ method' = method then some v
      else r.builtinDefault? traitName' method' := by
  by_cases htrait : traitName' = traitName
  · subst htrait
    by_cases hmethod : method' = method
    · simp [builtinDefault?, addBuiltinDefault, hmethod]
    · cases hknown : r.builtinDefaults.lookup traitName' <;>
        simp [builtinDefault?, addBuiltinDefault, hmethod, hknown, Assoc.lookup_insert_of_ne]
  · simp [builtinDefault?, addBuiltinDefault, htrait, Assoc.lookup_insert_of_ne]

end Registry

namespace Machine

/-- The instance that takes over the default, if resolving the method comes to that. -/
def materializedKey? (mach : Machine) (m : ClassMethod) (args : List Value)
    (site : CallSite) : Option TypeKey :=
  match mach.select m args site with
  | .inl _ => none
  | .inr fb =>
    if (mach.registry.userDefault? m.traitName m.method).isSome then
      (mach.registry.defaultKey m fb).map Prod.fst
    else none

variable {mach mach' : Machine} {s : Setting} {m : ClassMethod} {args : List Value}
  {site : CallSite} {route : Route} {r : Resolution}

theorem lookup?_withDefault (mach : Machine) (m : ClassMethod) (f : Func)
    (place : Option (TypeKey × Bool)) (traitName : String) (key : TypeKey) (method : String) :
    (mach.withDefault m f place).registry.lookup? traitName key method =
      if traitName = m.traitName ∧ method = m.method ∧ place.map Prod.fst = some key then
        some (.function mach.nextIdent (Registry.defaultClosure m.traitName f))
      else mach.registry.lookup? traitName key method := by
  cases place with
  | none => simp [withDefault]
  | some place =>
    simp only [withDefault, Registry.lookup?_addMethod, Option.map_some, Option.some.injEq]
    by_cases h : traitName = m.traitName ∧ key = place.1 ∧ method = m.method
    · rw [if_pos h, if_pos ⟨h.1, h.2.2, h.2.1.symm⟩]
    · rw [if_neg h, if_neg fun h' => h ⟨h'.1, h'.2.2.symm, h'.2.1⟩]

/-- Routes that do not end at a default come from the selection. -/
theorem Resolves.select_eq (h : mach.Resolves m args site route r mach')
    (hroute : route ≠ .userDefault ∧ route ≠ .builtinDefault) :
    mach.select m args site = .inl r := by
  unfold select
  cases h with
  | dictionary hdict => rw [hdict]
  | evidence hdict hevidence => simp only [hdict, hevidence]
  | context hdict hevidence _ _ hweigh => simp only [hdict, hevidence, hweigh]
  | argument hdict hevidence _ hweigh => simp only [hdict, hevidence, hweigh]
  | userDefault => simp at hroute
  | builtinDefault => simp at hroute

theorem Resolves.materializedKey? (h : mach.Resolves m args site route r mach')
    (hroute : route ≠ .userDefault) : mach.materializedKey? m args site = none := by
  unfold Machine.materializedKey?
  by_cases hbuiltin : route = .builtinDefault
  · subst hbuiltin
    cases h with
    | builtinDefault hselect huser => simp [hselect, huser]
  · rw [h.select_eq ⟨hroute, hbuiltin⟩]

theorem Resolves.machine_eq (h : mach.Resolves m args site route r mach')
    (hroute : route ≠ .userDefault) : mach' = mach := by
  cases h with
  | userDefault => exact absurd rfl hroute
  | _ => rfl

/-- The default goes where it was looked for, and no other route changes the table. -/
theorem Resolves.lookup? (h : mach.Resolves m args site route r mach') (traitName : String)
    (key : TypeKey) (method : String) :
    mach'.registry.lookup? traitName key method =
      if traitName = m.traitName ∧ method = m.method ∧
          mach.materializedKey? m args site = some key then some r.callee
      else mach.registry.lookup? traitName key method := by
  by_cases hroute : route = .userDefault
  · subst hroute
    cases h with
    | userDefault hselect huser =>
      rw [lookup?_withDefault, Machine.materializedKey?, hselect]
      simp only [huser, Option.isSome_some, if_true]
  · simp [h.materializedKey? hroute, h.machine_eq hroute]

end Machine

/-- After a method was resolved one entry of the table may be new: that of the instance which took
over the default. What it held before is lost, so no entry is lost exactly if that one held nothing
else. A failed resolution changes nothing. -/
theorem resolve_entries (m : ClassMethod) (args : List Value) (site : CallSite) (s : Setting)
    (mach : Machine) :
    (Run.resolve m args site s mach).Ends
      (fun r mach' =>
        (∀ traitName key method, mach'.registry.lookup? traitName key method =
          if traitName = m.traitName ∧ method = m.method ∧
              mach.materializedKey? m args site = some key then some r.callee
          else mach.registry.lookup? traitName key method) ∧
        (mach.registry.KeepsEntries mach'.registry ↔
          ∀ key v, mach.materializedKey? m args site = some key →
            mach.registry.lookup? m.traitName key m.method = some v → v = r.callee))
      (fun mach' => mach' = mach) (fun mach' => mach' = mach) := by
  refine Outcome.Ends.imp (Run.resolve_cases m args site s mach) ?_ (fun _ => id) fun _ => id
  rintro r mach' ⟨route, hroute⟩
  have hlookup := hroute.lookup?
  refine ⟨hlookup, fun hkeeps key v hkey hv => ?_, fun hheld traitName key method v hv => ?_⟩
  · have hafter := hkeeps _ _ _ v hv
    rw [hlookup, if_pos ⟨rfl, rfl, hkey⟩] at hafter
    exact (Option.some.inj hafter).symm
  · rw [hlookup]
    split
    · rename_i hplace
      obtain ⟨rfl, rfl, hkey⟩ := hplace
      rw [hheld key v hkey hv]
    · exact hv

namespace Parsing

/-- Dispatches on its result only. -/
def parse : ClassMethod :=
  { traitName := "Parse", method := "parse", arity := 1, dispatch := some [.result] }

def answering (text : String) : Func :=
  ⟨"parse", [⟨"text", none, none, false⟩], none, [], [], ⟨.lit (.str text), {}⟩, {}⟩

/-- The method of the instance for strings. -/
def own : Value := .function 0 { func := answering "instance", scope := 0, owner := some "Parse" }

def start : Machine where
  registry :=
    { instances := [("Parse", [(.single "String", [("parse", own)])])]
      userDefaults := [("Parse", [("parse", answering "default")])] }
  nextIdent := 1

end Parsing

open Parsing in
/-- Without a type expected of it the method is not looked for among the instances; the default is
taken and replaces the method of the instance for strings. -/
theorem resolve_loses_own :
    start.registry.lookup? "Parse" (.single "String") "parse" = some own ∧
      ∃ r mach', Run.resolve parse [.str "yes"] { name := "parse" } {} start = .done r mach' ∧
        ¬ start.registry.KeepsEntries mach'.registry := by
  refine ⟨rfl, _, _, rfl, fun hkeeps => ?_⟩
  have hafter : some (Value.function 1 (Registry.defaultClosure "Parse" (answering "default"))) =
      some own := hkeeps "Parse" (.single "String") "parse" own rfl
  simp [own] at hafter

end TraitLang
