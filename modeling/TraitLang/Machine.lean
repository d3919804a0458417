import TraitLang.Limits
import TraitLang.Registry
import TraitLang.Store

/-!
The state of an evaluation. A setting stays fixed while a program runs; a machine is what running
changes: the scopes, the traits, what was last loaded, four stacks, the output and the supply of
identities.
-/
namespace TraitLang

structure CallSite where
  name : String
  node : Option NodeId := none
  span : Span := {}
  annotation : Option Ty := none
  scope : Option ScopeId := none
deriving Inhabited

structure Resolution where
  callee : Value
  /-- what is left after dictionaries were used up -/
  args : List Value
  /-- the trait and the type that it was resolved for by context -/
  witness : Option (String × Ty) := none

inductive Registration where
  | traitDefault (traitName method : String) (v : Value)
  | instanceMethod (traitName : String) (types : List Ty) (method : String) (v : Value)
  /-- the bridge of that name takes the place of the one in use -/
  | bridge (name : String)
  | fallback (name : String)

/-- What a native function does, step by step: all that the interface of an interpreter offers. -/
inductive Action where
  | done (v : Value)
  | fail (f : Fault)
  | write (text : String) (next : Action)
  | fresh (next : Ident → Action)
  | depths (next : Nat → Nat → Nat → Action)
  | limits (next : Limits → Action)
  | look (next : Registry → Store → Action)
  | newScope (parent : ScopeId) (next : ScopeId → Action)
  | define (scope : ScopeId) (name : String) (v : Value) (next : Action)
  /-- gives a bound name a new value, and learns whether it is bound -/
  | assign (scope : ScopeId) (name : String) (v : Value) (next : Bool → Action)
  | apply (callee : Value) (args : List Value) (site : CallSite)
      (next : Except Fault Value → Action)
  | call (name : String) (args : List Value) (next : Except Fault Value → Action)
  | eval (e : Spanned Expr) (next : Except Fault Value → Action)
  | resolve (method : ClassMethod) (args : List Value) (site : CallSite)
      (next : Except Fault Resolution → Action)
  | load (p : AnalyzedProgram) (next : Except Fault Unit → Action)
  | register (r : Registration) (next : Action)

namespace Action

def error (cause : Cause) : Action := .fail { cause }

def ofResult : Except Fault Value → Action
  | .ok v => .done v
  | .error f => .fail f

end Action

structure Bridge where
  callMember : String → Ident → String → List Value → Except Fault Value
  readField : String → Ident → String → Except Fault Value

/-- Last resort for values that are no callables; `none` declines. -/
abbrev FallbackHandler := Value → List Value → Option (Except Fault Value)

/-- What the embedding program supplies. -/
structure Host where
  native : String → List Value → Action := fun _ _ => .done .unit
  bridge : Option Bridge := none
  fallback : Option FallbackHandler := none
  /-- bridges and handlers that native functions can put in the place of these, by name -/
  bridges : String → Option Bridge := fun _ => none
  fallbacks : String → Option FallbackHandler := fun _ => none

structure Machine where
  store : Store := .fresh
  registry : Registry := {}
  file : String := "<input>"
  hints : Hints := {}
  /-- the bridge and the handler that a native function put in place -/
  bridge : Option String := none
  fallback : Option String := none
  calls : Stack CallFrame := {}
  witnesses : WitnessStack := {}
  /-- expected types of annotated expressions -/
  typeContext : Stack Ty := {}
  /-- container types of the do chains in progress -/
  containers : Stack String := {}
  output : String := ""
  /-- identities in use are below this one -/
  nextIdent : Ident := 0
deriving Inhabited

/-- Points of a run at which a debugger can stop it. -/
inductive Event where
  /-- a call finds too many others in progress -/
  | overflow (site : CallSite)
  | dispatch (method : ClassMethod)
  | body (c : Closure) (scope : ScopeId)
  | native (b : Builtin) (args : List Value)
  | depths
  | limits

structure Setting where
  limits : Limits := {}
  host : Host := {}
  breakpoint : Event → Machine → Bool := fun _ _ => false

def Host.bridgeOn (h : Host) (m : Machine) : Option Bridge := m.bridge.elim h.bridge h.bridges

def Host.fallbackOn (h : Host) (m : Machine) : Option FallbackHandler :=
  m.fallback.elim h.fallback h.fallbacks

theorem Host.bridgeOn_eq_none {h : Host} (hown : h.bridge = none)
    (hnamed : ∀ name, h.bridges name = none) (m : Machine) : h.bridgeOn m = none := by
  unfold bridgeOn
  cases m.bridge with
  | none => exact hown
  | some name => exact hnamed name

theorem Host.fallbackOn_eq_none {h : Host} (hown : h.fallback = none)
    (hnamed : ∀ name, h.fallbacks name = none) (m : Machine) : h.fallbackOn m = none := by
  unfold fallbackOn
  cases m.fallback with
  | none => exact hown
  | some name => exact hnamed name

namespace Machine

def frame (m : Machine) (site : CallSite) : CallFrame :=
  { name := site.name, file := m.file, span := site.span }

/-- Replaces the type variables that the scope binds to a type or, failing that, the evidence. -/
def resolveType (m : Machine) (ty : Ty) (scope : ScopeId) : Ty :=
  ty.substitute fun name =>
    (m.store.get? scope name).bind Value.type? <|> m.witnesses.lookup name

end Machine

end TraitLang
