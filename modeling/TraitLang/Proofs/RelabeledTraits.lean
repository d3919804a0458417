import TraitLang.Proofs.Relabeling

/-!
What is known about traits, with the faults, functions and natives in it replaced. Registering and
looking up commute with a replacement, and so does building dictionaries.
-/
namespace TraitLang

namespace Registry

def relabel (ρ : Relabeling) (r : Registry) : Registry :=
  { r with
    instances := Assoc.mapValues (Assoc.mapValues (Assoc.mapValues (Value.relabel ρ))) r.instances
    userDefaults := Assoc.mapValues (Assoc.mapValues ρ.func) r.userDefaults
    builtinDefaults := Assoc.mapValues (Assoc.mapValues (Value.relabel ρ)) r.builtinDefaults }

variable (ρ : Relabeling) (r : Registry)

theorem relabel_relabel (σ : Relabeling) :
    (r.relabel σ).relabel ρ = r.relabel (ρ.comp σ) := by
  simp only [relabel, Assoc.mapValues_mapValues, Value.relabel_relabel]
  rfl

@[simp] theorem methodNames_relabel (traitName : String) :
    (r.relabel ρ).methodNames traitName = r.methodNames traitName := rfl

@[simp] theorem supers_relabel (traitName : String) :
    (r.relabel ρ).supers traitName = r.supers traitName := rfl

@[simp] theorem aliasTarget?_relabel (name : String) :
    (r.relabel ρ).aliasTarget? name = r.aliasTarget? name := rfl

@[simp] theorem traitMethod?_relabel (traitName method : String) :
    (r.relabel ρ).traitMethod? traitName method = r.traitMethod? traitName method := rfl

theorem table_relabel (traitName : String) :
    (r.relabel ρ).table traitName =
      Assoc.mapValues (Assoc.mapValues (Value.relabel ρ)) (r.table traitName) := by
  unfold table relabel
  dsimp only
  rw [Assoc.lookup_mapValues]
  cases r.instances.lookup traitName <;> rfl

@[simp] theorem lookup?_relabel (traitName : String) (key : TypeKey) (method : String) :
    (r.relabel ρ).lookup? traitName key method =
      (r.lookup? traitName key method).map (Value.relabel ρ) := by
  unfold lookup?
  rw [table_relabel, Assoc.lookup_mapValues]
  cases (r.table traitName).lookup key with
  | none => rfl
  | some methods => exact Assoc.lookup_mapValues _ _ _

@[simp] theorem hasInstance_relabel (traitName : String) (key : TypeKey) :
    (r.relabel ρ).hasInstance traitName key = r.hasInstance traitName key := by
  rw [hasInstance, table_relabel, Assoc.contains_mapValues, hasInstance]

@[simp] theorem instanceKeys_relabel (traitName : String) :
    (r.relabel ρ).instanceKeys traitName = r.instanceKeys traitName := by
  rw [instanceKeys, table_relabel, Assoc.keys_mapValues, instanceKeys]

@[simp] theorem keyArity_relabel (traitName : String) :
    (r.relabel ρ).keyArity traitName = r.keyArity traitName := by
  rw [keyArity, instanceKeys_relabel, keyArity]

@[simp] theorem userDefault?_relabel (traitName method : String) :
    (r.relabel ρ).userDefault? traitName method = (r.userDefault? traitName method).map ρ.func := by
  unfold userDefault? relabel
  dsimp only
  rw [Assoc.lookup_mapValues]
  cases r.userDefaults.lookup traitName with
  | none => rfl
  | some methods => exact Assoc.lookup_mapValues _ _ _

@[simp] theorem builtinDefault?_relabel (traitName method : String) :
    (r.relabel ρ).builtinDefault? traitName method =
      (r.builtinDefault? traitName method).map (Value.relabel ρ) := by
  unfold builtinDefault? relabel
  dsimp only
  rw [Assoc.lookup_mapValues]
  cases r.builtinDefaults.lookup traitName with
  | none => rfl
  | some methods => exact Assoc.lookup_mapValues _ _ _

theorem relabel_addInstance (traitName : String) (key : TypeKey) :
    (r.addInstance traitName key).relabel ρ = (r.relabel ρ).addInstance traitName key := by
  unfold addInstance
  dsimp only
  rw [table_relabel, Assoc.contains_mapValues]
  split
  · simp [relabel, Assoc.mapValues_insert]
  · simp [relabel, Assoc.mapValues_insert]

theorem relabel_addMethod (traitName : String) (key : TypeKey) (method : String) (v : Value) :
    (r.addMethod traitName key method v).relabel ρ =
      (r.relabel ρ).addMethod traitName key method (v.relabel ρ) := by
  unfold addMethod
  dsimp only
  rw [table_relabel, Assoc.lookup_mapValues]
  cases (r.table traitName).lookup key with
  | none => simp [relabel, Assoc.mapValues_insert]
  | some methods => simp [relabel, Assoc.mapValues_insert]

theorem relabel_addBuiltinDefault (traitName method : String) (v : Value) :
    (r.addBuiltinDefault traitName method v).relabel ρ =
      (r.relabel ρ).addBuiltinDefault traitName method (v.relabel ρ) := by
  have hknown : ((r.relabel ρ).builtinDefaults.lookup traitName).getD [] =
      Assoc.mapValues (Value.relabel ρ) ((r.builtinDefaults.lookup traitName).getD []) := by
    rw [relabel, Assoc.lookup_mapValues]
    cases r.builtinDefaults.lookup traitName <;> rfl
  unfold addBuiltinDefault
  rw [hknown]
  simp [relabel, Assoc.mapValues_insert]

end Registry

/-- What the analyser knows, with the functions in it replaced. -/
def Hints.relabel (ρ : Relabeling) (h : Hints) : Hints :=
  { h with traitDefaults := Assoc.mapValues (List.map ρ.func) h.traitDefaults }

theorem Hints.relabel_relabel (ρ σ : Relabeling) (h : Hints) :
    (h.relabel σ).relabel ρ = h.relabel (ρ.comp σ) := by
  simp [relabel, Relabeling.comp, Assoc.mapValues]

namespace Registry

/-- A table of defaults with those of one more trait. -/
def adopt (table : List (String × List (String × Func))) (e : String × List Func) :
    List (String × List (String × Func)) :=
  Assoc.insert e.1
    (Assoc.insertAll (e.2.map fun f => (f.name, f)) ((table.lookup e.1).getD [])) table

variable {ρ : Relabeling} (hρ : ∀ f, (ρ.func f).name = f.name)

include hρ

theorem relabel_adopt (table : List (String × List (String × Func))) (e : String × List Func) :
    Assoc.mapValues (Assoc.mapValues ρ.func) (adopt table e) =
      adopt (Assoc.mapValues (Assoc.mapValues ρ.func) table) (e.1, e.2.map ρ.func) := by
  have hfuncs : Assoc.mapValues ρ.func (e.2.map fun f => (f.name, f)) =
      (e.2.map ρ.func).map fun f => (f.name, f) := by
    simp [Assoc.mapValues, Function.comp_def, hρ]
  rw [adopt, adopt, Assoc.mapValues_insert, Assoc.mapValues_insertAll, hfuncs,
    Assoc.lookup_mapValues]
  cases table.lookup e.1 <;> rfl

theorem relabel_absorb (r : Registry) (h : Hints) :
    (r.absorb h).relabel ρ = (r.relabel ρ).absorb (h.relabel ρ) := by
  have hdefaults : Assoc.mapValues (Assoc.mapValues ρ.func) (r.absorb h).userDefaults =
      ((r.relabel ρ).absorb (h.relabel ρ)).userDefaults := by
    show Assoc.mapValues _ (h.traitDefaults.foldl adopt r.userDefaults) =
      (h.traitDefaults.map fun e => (e.1, e.2.map ρ.func)).foldl adopt
        (Assoc.mapValues (Assoc.mapValues ρ.func) r.userDefaults)
    rw [List.foldl_map]
    exact (List.foldl_hom _ fun table e => (relabel_adopt hρ table e).symm).symm
  simp only [relabel, hdefaults]
  rfl

end Registry

/-! ### Dictionaries -/

namespace Registry

variable (ρ : Relabeling) (r : Registry) (key : TypeKey)

theorem methodOrDefault_relabel (traitName : String) (id : Ident) (method : String) :
    (r.relabel ρ).methodOrDefault key traitName id method =
      (r.methodOrDefault key traitName id method).relabel ρ := by
  unfold methodOrDefault
  rw [lookup?_relabel, userDefault?_relabel, builtinDefault?_relabel, traitMethod?_relabel]
  cases r.lookup? traitName key method with
  | some found => rfl
  | none =>
    cases r.userDefault? traitName method with
    | some f => rfl
    | none => cases r.builtinDefault? traitName method <;> rfl

theorem methodsFrom_relabel (traitName : String) (id : Ident) (names : List String) :
    (r.relabel ρ).methodsFrom key traitName id names =
      (r.methodsFrom key traitName id names).map (Value.relabel ρ) := by
  induction names generalizing id with
  | nil => rfl
  | cons name names ih => simp [methodsFrom, methodOrDefault_relabel, ih]

theorem superDictionaries_relabel {build build' : String → Trail → Dictionary × Trail}
    (hbuild : ∀ sup trail, build' sup trail = ((build sup trail).1.relabel ρ, (build sup trail).2))
    (sups : List String) (trail : Trail) :
    (r.relabel ρ).superDictionaries key build' sups trail =
      ((r.superDictionaries key build sups trail).1.map (Dictionary.relabel ρ),
        (r.superDictionaries key build sups trail).2) := by
  induction sups generalizing trail with
  | nil => rfl
  | cons sup sups ih =>
    simp only [superDictionaries, hasInstance_relabel]
    split
    · exact ih trail
    · simp only [hbuild, ih, List.map_cons]

theorem assemble_relabel (fuel : Nat) (traitName : String) (trail : Trail) :
    (r.relabel ρ).assemble key fuel traitName trail =
      ((r.assemble key fuel traitName trail).1.relabel ρ,
        (r.assemble key fuel traitName trail).2) := by
  induction fuel generalizing traitName trail with
  | zero => simp [assemble, Dictionary.placeholder]
  | succ fuel ih =>
    simp [assemble, superDictionaries_relabel ρ r key ih, methodsFrom_relabel]

theorem dictionary?_relabel (traitName : String) (next : Ident) :
    (r.relabel ρ).dictionary? traitName key next =
      (r.dictionary? traitName key next).map fun built => (built.1.relabel ρ, built.2) := by
  have hlength : (r.relabel ρ).instances.length = r.instances.length := Assoc.length_mapValues _ _
  unfold dictionary?
  rw [hasInstance_relabel, hlength, assemble_relabel]
  split <;> rfl

mutual

theorem methodIn?_relabel (traitName method : String) : ∀ d : Dictionary,
    (r.relabel ρ).methodIn? traitName method (d.relabel ρ) =
      (r.methodIn? traitName method d).map (Value.relabel ρ)
  | ⟨_, name, _, methods, supers⟩ => by
    have hsupers := methodInAny?_relabel traitName method supers
    simp only [Dictionary.relabel, relabelAll_eq, relabelDictionaries_eq, methodIn?,
      methodNames_relabel, hsupers]
    split
    · cases (r.methodNames traitName).findIdx? (· == method) <;> simp
    · rfl

theorem methodInAny?_relabel (traitName method : String) : ∀ ds : List Dictionary,
    (r.relabel ρ).methodInAny? traitName method (ds.map (Dictionary.relabel ρ)) =
      (r.methodInAny? traitName method ds).map (Value.relabel ρ)
  | [] => by simp [methodInAny?]
  | d :: ds => by
    have hd := methodIn?_relabel traitName method d
    have hds := methodInAny?_relabel traitName method ds
    simp only [List.map_cons, methodInAny?, hd, hds]
    cases r.methodIn? traitName method d <;> rfl

end

end Registry

end TraitLang
