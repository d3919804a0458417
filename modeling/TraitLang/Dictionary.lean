import TraitLang.Registry

/-!
Dictionaries: building the one of an instance, with those of its super-traits, and finding a method
in one. A trait enters a dictionary once, where the search along super-traits meets it first.
-/
namespace TraitLang

namespace Registry

/-- The default of a method closed over the global scope. -/
def defaultClosure (traitName : String) (f : Func) : Closure :=
  { func := f, scope := 0, owner := some traitName }

/-- The method of an instance: its own, the default of the trait or one that is dispatched later. -/
def methodOrDefault (r : Registry) (key : TypeKey) (traitName : String) (id : Ident)
    (method : String) : Value :=
  match r.lookup? traitName key method with
  | some found => found
  | none =>
    match r.userDefault? traitName method with
    | some f => .function id (defaultClosure traitName f)
    | none =>
      match r.builtinDefault? traitName method with
      | some builtin => builtin
      | none =>
        .method id
          { traitName, method, arity := (r.traitMethod? traitName method).elim 0 TraitMethod.arity }

/-- The methods of an instance in dictionary order, each with an identity of its own. -/
def methodsFrom (r : Registry) (key : TypeKey) (traitName : String) :
    Ident → List String → List Value
  | _, [] => []
  | id, name :: names =>
    r.methodOrDefault key traitName id name :: methodsFrom r key traitName (id + 1) names

/-- What a search along super-traits has seen and the next identity. -/
structure Trail where
  visited : List String
  nextIdent : Ident

/-- The dictionaries of the super-traits that have an instance and were not met before. -/
def superDictionaries (r : Registry) (key : TypeKey) (build : String → Trail → Dictionary × Trail) :
    List String → Trail → List Dictionary × Trail
  | [], trail => ([], trail)
  | sup :: sups, trail =>
    if trail.visited.contains sup || !r.hasInstance sup key then
      superDictionaries r key build sups trail
    else
      let (d, trail) := build sup trail
      let (ds, trail) := superDictionaries r key build sups trail
      (d :: ds, trail)

/-- The dictionary of an instance, at most `fuel` traits deep. -/
def assemble (r : Registry) (key : TypeKey) : Nat → String → Trail → Dictionary × Trail
  | 0, traitName, trail =>
    (.placeholder trail.nextIdent traitName, { trail with nextIdent := trail.nextIdent + 1 })
  | fuel + 1, traitName, trail =>
    let names := r.methodNames traitName
    let first := trail.nextIdent + 1
    let (supers, after) := superDictionaries r key (assemble r key fuel) (r.supers traitName)
      { visited := traitName :: trail.visited, nextIdent := first + names.length }
    ({ id := trail.nextIdent
       traitName
       key := some key
       methods := r.methodsFrom key traitName first names
       supers }, after)

/-- The dictionary of an instance and the next identity. Every trait on a path has an instance and
occurs once, so the number of traits with instances bounds the path. -/
def dictionary? (r : Registry) (traitName : String) (key : TypeKey) (next : Ident) :
    Option (Dictionary × Ident) :=
  if r.hasInstance traitName key then
    let (d, trail) := r.assemble key (r.instances.length + 1) traitName ⟨[], next⟩
    some (d, trail.nextIdent)
  else none

mutual

/-- Looks a method up in a dictionary or those of its super-traits, depth first. -/
def methodIn? (r : Registry) (traitName method : String) : Dictionary → Option Value
  | ⟨_, name, _, methods, supers⟩ =>
    if name = traitName then
      ((r.methodNames traitName).findIdx? (· == method)).bind fun i => methods[i]?
    else methodInAny? r traitName method supers

def methodInAny? (r : Registry) (traitName method : String) : List Dictionary → Option Value
  | [] => none
  | d :: ds =>
    match methodIn? r traitName method d with
    | some found => some found
    | none => methodInAny? r traitName method ds

end

end Registry

end TraitLang
