import TraitLang.Dictionary
import TraitLang.Run

/-!
Resolving a trait method to an implementation. In order: dictionaries passed in front of the
arguments; for methods without parameters, the evidence in force; then the type that the caller
expects and the types of the arguments, which may disagree; last the defaults of the trait.
-/
namespace TraitLang

inductive ContextSource where
  | container | typeContext | annotation | nodeType | resultWitness
deriving DecidableEq, Repr

/-- Written by the programmer, not inferred. -/
def ContextSource.isAnnotation : ContextSource → Bool
  | typeContext | annotation => true
  | _ => false

structure Candidate where
  key : TypeKey
  callee : Value
  /-- found under the key of the argument types, not by score -/
  exact : Bool

inductive Choice where
  | context | argument | neither
deriving DecidableEq, Repr

namespace ClassMethod

/-- The type that the method dispatches on shows up in its result only. -/
def isContextOnly (m : ClassMethod) : Bool :=
  m.traitName == "Applicative" && (m.method == "pure" || m.method == "lift")

/-- The declaration says that only the result carries the type. -/
def isReturnOnly (m : ClassMethod) : Bool :=
  match m.dispatch with
  | some ds => !ds.isEmpty && ds.all (· == .result)
  | none => false

def argPositions (m : ClassMethod) : List Nat :=
  (m.dispatch.getD []).filterMap fun
    | .arg i => some i
    | .result => none

def dispatchTypes (m : ClassMethod) (args : List Value) : List String :=
  match m.argPositions with
  | [] => args.map Value.typeName
  | positions => positions.filterMap fun i => args[i]?.map Value.typeName

end ClassMethod

/-- The expected type is applied to the type of an argument, as `Option<Int>` to `Int`. -/
def wrapsArgument (expected : Ty) (types : List String) : Bool :=
  (expected.typeArgs.filterMap Ty.constructorName).any fun inner => types.contains inner

/-- One for each part that equals the type at its place or is a variable, and one if a part past the
types names the expected type. -/
def scoreKey (key : TypeKey) (types : List String) (contextName : Option String) : Nat :=
  let matched := (key.parts.zip types).countP fun (part, ty) =>
    ty == part || isTypeVariableName part
  let boosted := (key.parts.drop types.length).any fun part => contextName == some part
  matched + if boosted then 1 else 0

namespace Registry

def typeAccepts (r : Registry) (ty : Ty) (v : Value) : Bool :=
  match ty.constructorName with
  | none => true
  | some name =>
    name == "Any" || isTypeVariableName name || name == v.typeName ||
      r.aliasTarget? name == some v.typeName

def acceptsArgs (r : Registry) (callee : Value) (args : List Value) : Bool :=
  let args := plainArgs args
  match callee with
  | .function _ c =>
    (c.func.isVariadic || args.length ≤ c.func.params.length) &&
      (c.func.fixedParams.zip args).all fun (p, v) => p.ty.all fun ty => r.typeAccepts ty v
  | .builtin b =>
    match b.signature.bind Ty.fnParams with
    | some params =>
      args.length ≤ params.length && (params.zip args).all fun (ty, v) => r.typeAccepts ty v
    | none => true
  | _ => true

/-- The method under a key or, for a single name, under what the name is an alias of. -/
def lookupWithAlias? (r : Registry) (traitName : String) (key : TypeKey) (method : String) :
    Option Value :=
  match r.lookup? traitName key method with
  | some found => some found
  | none =>
    match key.parts with
    | [name] => do r.lookup? traitName (.single (← r.aliasTarget? name)) method
    | _ => none

/-- The method under the first of the keys where it is defined and takes the arguments. -/
def firstAccepting? (r : Registry) (m : ClassMethod) (args : List Value) (exact : Bool)
    (keys : List TypeKey) : Option Candidate :=
  keys.findSome? fun key => do
    let callee ← r.lookup? m.traitName key m.method
    if r.acceptsArgs callee args then some { key, callee, exact } else none

/-- Keys that a type name stands for: itself, then longer keys that start with it. -/
def keysNamed (r : Registry) (traitName name : String) : List TypeKey :=
  .single name :: (r.instanceKeys traitName).filter fun k =>
    1 < k.size && k.parts.head? == some name

def contextCandidate? (r : Registry) (m : ClassMethod) (expected : Ty) (args : List Value) :
    Option Candidate := do
  let name ← expected.constructorName
  let names := name :: (r.aliasTarget? name).toList
  r.firstAccepting? m args true (names.flatMap (r.keysNamed m.traitName))

/-- Keys with a positive score, the best first; keys of one score in the order of registration. -/
def scoredKeys (r : Registry) (traitName : String) (types : List String)
    (contextName : Option String) : List TypeKey :=
  let scored := (r.instanceKeys traitName).map fun key => (scoreKey key types contextName, key)
  ((scored.filter fun e => 0 < e.1).mergeSort fun a b => b.1 ≤ a.1).map Prod.snd

def argumentCandidate? (r : Registry) (m : ClassMethod) (types : List String) (args : List Value)
    (contextName : Option String) : Option Candidate :=
  let exact :=
    if r.keyArity m.traitName = some types.length then r.firstAccepting? m args true [⟨types⟩]
    else none
  match exact with
  | some found => some found
  | none => r.firstAccepting? m args false (r.scoredKeys m.traitName types contextName)

end Registry

/-- Decides between an expected type and the types of the arguments. -/
def ClassMethod.choose (m : ClassMethod) (hasArgs : Bool) (types : List String)
    (context : Option (Ty × ContextSource)) (byContext byArgument : Option Candidate) : Choice :=
  if m.traitName == "Show" then
    match byArgument, byContext with
    | some _, _ => .argument
    | none, some _ => if hasArgs then .neither else .context
    | none, none => .neither
  else if m.isContextOnly then
    if byContext.isSome then .context else .neither
  else
    match byContext, byArgument, context with
    | some c, some a, some (expected, source) =>
      -- an expected `Option<Int>` says more than an `Int` in hand
      if wrapsArgument expected types then .context
      else if a.exact then .argument
      else if m.arity = 0 then .context
      else if source.isAnnotation && c.key ≠ a.key then .context
      else .argument
    | some _, none, _ => .context
    | none, some _, _ => .argument
    | _, _, _ => .neither

/-- Strips dictionaries from the front of the arguments until one decides: placeholders and those
whose method does not take the rest are dropped, one without the method ends the search. -/
def Registry.byDictionary (r : Registry) (m : ClassMethod) :
    List Value → Option Value × List Value
  | .dictionary d :: rest =>
    if d.isPlaceholder then byDictionary r m rest
    else
      match r.methodIn? m.traitName m.method d with
      | none => (none, .dictionary d :: rest)
      | some found =>
        if r.acceptsArgs found rest then (some found, rest) else byDictionary r m rest
  | args => (none, args)

namespace Machine

/-- A type at a call site, with the variables of the caller replaced. -/
def resolveAt (m : Machine) (ty : Ty) (site : CallSite) : Ty :=
  match site.scope with
  | some scope => m.resolveType ty scope
  | none => ty

def resultWitness (m : Machine) : Option (Ty × ContextSource) :=
  (m.witnesses.lookup resultKey).map fun ty => (ty, .resultWitness)

def expectedType (m : Machine) (method : ClassMethod) (site : CallSite) :
    Option (Ty × ContextSource) :=
  let container := m.containers.top?.map fun name => (Ty.con name, ContextSource.container)
  let typeContext := (m.typeContext.top?.filter fun ty => !ty.hasVarHead).map fun ty =>
    (ty, ContextSource.typeContext)
  let annotation := ((site.annotation.map (m.resolveAt · site)).filter fun ty => !ty.hasVarHead).map
    fun ty => (ty, ContextSource.annotation)
  let inferred := match site.node.bind fun id => m.hints.nodeTypes.lookup id with
    | some nodeTy =>
      let ty := m.resolveAt nodeTy site
      if ty.hasVarHead then m.resultWitness else some (ty, .nodeType)
    | none => if method.arity = 0 then m.resultWitness else none
  container <|> typeContext <|> annotation <|> inferred

/-- For a method without parameters, the implementation that the evidence in force names. -/
def witnessCandidate? (m : Machine) (method : ClassMethod) : Option Value :=
  if method.arity = 0 then do
    let ty ← m.witnesses.lookup method.traitName
    m.registry.lookupWithAlias? method.traitName (.ofTypes [ty]) method.method
  else none

end Machine

/-- What the defaults of a trait go by when no implementation was found. -/
structure Fallback where
  /-- what is left after dictionaries were used up -/
  args : List Value
  types : List String
  context : Option (Ty × ContextSource)
  hasArgs : Bool

namespace Machine

def weigh (m : Machine) (method : ClassMethod) (args : List Value)
    (site : CallSite) : Resolution ⊕ Fallback :=
  let r := m.registry
  let plain := plainArgs args
  let types := method.dispatchTypes plain
  let context := m.expectedType method site
  let contextName := context.bind fun c => c.1.constructorName
  let byContext := context.bind fun c => r.contextCandidate? method c.1 plain
  let byArgument := if method.isReturnOnly || types.isEmpty then none
    else r.argumentCandidate? method types plain contextName
  let choice := method.choose (!plain.isEmpty) types context byContext byArgument
  match choice, byContext, byArgument with
  | .context, some found, _ =>
    .inl { callee := found.callee, args
           witness := context.map fun c => (method.traitName, c.1) }
  | .argument, _, some found => .inl { callee := found.callee, args }
  | _, _, _ => .inr { args, types, context, hasArgs := !plain.isEmpty }

/-- The implementation that dictionaries, evidence, context or arguments select. -/
def select (m : Machine) (method : ClassMethod) (args : List Value)
    (site : CallSite) : Resolution ⊕ Fallback :=
  match m.registry.byDictionary method args with
  | (some callee, args) => .inl { callee, args }
  | (none, args) =>
    match m.witnessCandidate? method with
    | some callee => .inl { callee, args }
    | none => m.weigh method args site

end Machine

/-- The instance that a default becomes part of, and whether the context names it. -/
def Registry.defaultKey (r : Registry) (m : ClassMethod) (fb : Fallback) :
    Option (TypeKey × Bool) :=
  -- as many types as the other instances of the trait have
  let byArgument := if fb.types.isEmpty then none
    else some (TypeKey.mk (fb.types.take ((r.keyArity m.traitName).getD 1)), false)
  let byContext := (fb.context.bind fun c => c.1.constructorName).map fun name =>
    (TypeKey.single ((r.aliasTarget? name).getD name), true)
  if m.isContextOnly || m.arity == 0 || !fb.hasArgs then byContext <|> byArgument
  else byArgument <|> byContext

/-- Evidence that comes with a default whose key the context names. -/
def Fallback.witness (fb : Fallback) (m : ClassMethod) :
    Option (TypeKey × Bool) → Option (String × Ty)
  | some (_, true) => fb.context.map fun c => (m.traitName, c.1)
  | _ => none

namespace Run

def materialize (m : ClassMethod) (callee : Value) : Option (TypeKey × Bool) → Run Unit
  | some (key, _) =>
    modify fun mach =>
      { mach with registry := mach.registry.addMethod m.traitName key m.method callee }
  | none => pure ()

/-- Falls back to the default of the trait. A user default becomes the method of the instance that
the arguments or the context name. -/
def resolveDefault (m : ClassMethod) (fb : Fallback) : Run Resolution := do
  let r := (← machine).registry
  let key := r.defaultKey m fb
  let witness := fb.witness m key
  match r.userDefault? m.traitName m.method with
  | some f => do
    let callee := Value.function (← fresh) (Registry.defaultClosure m.traitName f)
    materialize m callee key
    return { callee, args := fb.args, witness }
  | none =>
    match r.builtinDefault? m.traitName m.method with
    | some callee => return { callee, args := fb.args, witness }
    | none =>
      let type := if fb.types.isEmpty then "unknown" else ", ".intercalate fb.types
      fail (.noImplementation m.traitName type m.method)

def resolve (m : ClassMethod) (args : List Value) (site : CallSite) : Run Resolution := do
  reach (.dispatch m)
  let mach ← machine
  match mach.select m args site with
  | .inl found => return found
  | .inr fb => resolveDefault m fb

end Run

end TraitLang
