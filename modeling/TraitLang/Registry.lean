import TraitLang.Assoc
import TraitLang.Value.Basic

/-!
What is known about traits: declarations, instances with their methods, defaults, super-traits and
type aliases. Instance keys keep the order of their registration.
-/
namespace TraitLang

abbrev MethodTable := List (String × Value)

structure Registry where
  /-- methods of the latest declaration of each trait -/
  traits : List (String × List TraitMethod) := []
  instances : List (String × List (TypeKey × MethodTable)) := []
  /-- methods in the order of dictionaries -/
  methodOrder : List (String × List String) := []
  superTraits : List (String × List String) := []
  userDefaults : List (String × List (String × Func)) := []
  builtinDefaults : List (String × List (String × Value)) := []
  aliases : List (String × Ty) := []
deriving Inhabited

namespace Registry

/-- Takes over what the analyser knows about traits. -/
def absorb (r : Registry) (h : Hints) : Registry :=
  { r with
    methodOrder := Assoc.insertAll h.methodOrder r.methodOrder
    superTraits := Assoc.insertAll h.superTraits r.superTraits
    userDefaults := h.traitDefaults.foldl (fun table (name, funcs) =>
        let known := (table.lookup name).getD []
        Assoc.insert name (Assoc.insertAll (funcs.map fun f => (f.name, f)) known) table)
      r.userDefaults
    aliases := Assoc.insertAll h.aliases r.aliases }

/-- A new declaration replaces the methods; the dictionary order stays once it is fixed. -/
def declare (r : Registry) (t : TraitDef) : Registry :=
  { r with
    methodOrder :=
      if Assoc.contains t.name r.methodOrder then r.methodOrder
      else Assoc.insert t.name (t.methods.map TraitMethod.name) r.methodOrder
    traits := Assoc.insert t.name t.methods r.traits }

def traitMethod? (r : Registry) (traitName method : String) : Option TraitMethod := do
  (← r.traits.lookup traitName).find? fun m => m.name == method

/-- Instances of a trait with their methods. -/
def table (r : Registry) (traitName : String) : List (TypeKey × MethodTable) :=
  (r.instances.lookup traitName).getD []

/-- Makes sure that there is an instance, with no methods at first. -/
def addInstance (r : Registry) (traitName : String) (key : TypeKey) : Registry :=
  let table := r.table traitName
  let table := if Assoc.contains key table then table else Assoc.insert key [] table
  { r with instances := Assoc.insert traitName table r.instances }

def addMethod (r : Registry) (traitName : String) (key : TypeKey) (method : String) (v : Value) :
    Registry :=
  let table := r.table traitName
  let methods := (table.lookup key).getD []
  { r with
    instances := Assoc.insert traitName (Assoc.insert key (Assoc.insert method v methods) table)
      r.instances }

def lookup? (r : Registry) (traitName : String) (key : TypeKey) (method : String) : Option Value :=
  ((r.table traitName).lookup key).bind fun methods => methods.lookup method

def hasInstance (r : Registry) (traitName : String) (key : TypeKey) : Bool :=
  Assoc.contains key (r.table traitName)

def instanceKeys (r : Registry) (traitName : String) : List TypeKey :=
  Assoc.keys (r.table traitName)

/-- Number of parameters of a trait, as its first instance has them. -/
def keyArity (r : Registry) (traitName : String) : Option Nat :=
  (r.instanceKeys traitName).head?.map TypeKey.size

/-- Methods in the order of dictionaries. -/
def methodNames (r : Registry) (traitName : String) : List String :=
  (r.methodOrder.lookup traitName).getD []

/-- Direct super-traits. -/
def supers (r : Registry) (traitName : String) : List String :=
  (r.superTraits.lookup traitName).getD []

def userDefault? (r : Registry) (traitName method : String) : Option Func :=
  (r.userDefaults.lookup traitName).bind fun t => t.lookup method

def builtinDefault? (r : Registry) (traitName method : String) : Option Value :=
  (r.builtinDefaults.lookup traitName).bind fun t => t.lookup method

def addBuiltinDefault (r : Registry) (traitName method : String) (v : Value) : Registry :=
  let known := (r.builtinDefaults.lookup traitName).getD []
  { r with
    builtinDefaults := Assoc.insert traitName (Assoc.insert method v known) r.builtinDefaults }

/-- The constructor that an alias stands for. -/
def aliasTarget? (r : Registry) (name : String) : Option String :=
  (r.aliases.lookup name).bind Ty.constructorName

end Registry

end TraitLang
