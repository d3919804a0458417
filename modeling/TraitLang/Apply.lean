import TraitLang.Loading
import TraitLang.Native

/-!
Applying callables. A call in tail position of a function body takes over the frame of its caller:
a loop runs body after body, and only calls in other positions nest. Fuel bounds both the nesting
and the length of each loop.
-/
namespace TraitLang

inductive Binding where
  | ready (scope : ScopeId)
  /-- too few arguments: a partial application -/
  | short (v : Value)

/-- A callee on its way to something that runs directly. -/
structure Pending where
  callee : Value
  args : List Value
  witness : Option WitnessFrame := none

inductive Reduced where
  | call (p : Pending)
  /-- a trait method that waits for more arguments -/
  | short (v : Value)

/-- A call that the loop is about to make. -/
structure LoopState extends Pending where
  site : CallSite
  /-- the call took over the frame of another one -/
  reentered : Bool

/-- Dictionary parameters with the dictionaries in their order; where those end, the super-trait
dictionaries of the first one serve. -/
def witnessBindings? (first : Dictionary) :
    List WitnessParam → List Dictionary → Option (List (String × Value))
  | [], _ => some []
  | p :: ps, d :: ds => do return (p.name, .dictionary d) :: (← witnessBindings? first ps ds)
  | p :: ps, [] => do
    let d ← first.findSuper p.traitName
    return (p.name, .dictionary d) :: (← witnessBindings? first ps [])

/-- Evidence for a body whose declared result type is known. -/
def Machine.returnWitness (m : Machine) (c : Closure) (scope : ScopeId) : Option WitnessFrame := do
  let declared ← c.func.retTy
  let resolved := m.resolveType declared scope
  if resolved.hasVarHead then none
  else
    -- a bound on the variable at the head is a bound on what it stands for
    let bounds := match declared.headVariable with
      | some v => (c.func.constraints.filter fun k => k.typeVar == v).map Constraint.traitName
      | none => []
    let keys := resultKey :: c.owner.toList ++ bounds
    some (keys.foldl (fun frame key => frame.insert key resolved) {})

/-- A fault after a tail call gets the position of that call. -/
def Fault.atTailSite (site : CallSite) (reentered : Bool) (f : Fault) : Fault :=
  if reentered then f.orLocation site.span else f

def Value.isMethod (id : Ident) : Value → Bool
  | .method id' _ => id' == id
  | _ => false

def Resolution.frame (r : Resolution) : Option WitnessFrame :=
  r.witness.map fun (traitName, ty) => .single traitName ty

namespace Run

def partialApp (callee : Value) (args : List Value) (remaining : Nat) : Run Value := do
  return .partialApp (← fresh) callee args remaining

/-- Binds parameters in order; a missing argument is replaced by the default, which is evaluated in
the scope of the definition. -/
def bindParams (apply : Apply) (c : Closure) (scope : ScopeId) (supplied : Nat) :
    List Param → List Value → Run Unit
  | [], _ => pure ()
  | p :: ps, v :: vs => do
    define scope p.name v
    bindParams apply c scope supplied ps vs
  | p :: ps, [] => do
    match p.default with
    | some e =>
      define scope p.name (← evalValue apply {} c.scope e)
      bindParams apply c scope supplied ps []
    | none => fail (.arityMismatch c.func.name c.func.required supplied)

def bindDictionaries (f : Func) (scope : ScopeId) : List Dictionary → Run Unit
  | [] => pure ()
  | first :: rest => do
    let bindings ← require (.witnessMismatch f.name f.witnessParams.length (rest.length + 1))
      (witnessBindings? first f.witnessParams (first :: rest))
    defineAll scope bindings

def bindTypes (scope : ScopeId) (site : CallSite) : Run Unit := do
  let hints := (← machine).hints
  let types := (site.node.bind fun node => hints.instantiations.lookup node).getD []
  defineAll scope (types.map fun (name, ty) => (name, .typeRep ty))

def bindSurplus (f : Func) (scope : ScopeId) (plain : List Value) : Run Unit :=
  match f.params.getLast? with
  | some p =>
    if p.variadic then define scope p.name (.list (plain.drop f.fixedParams.length)) else pure ()
  | none => pure ()

def bindScope (apply : Apply) (c : Closure) (args : List Value) (site : CallSite) :
    Run ScopeId := do
  let plain := plainArgs args
  let scope ← newScope c.scope
  bindDictionaries c.func scope (leadingDictionaries args)
  bindTypes scope site
  bindParams apply c scope plain.length c.func.fixedParams plain
  bindSurplus c.func scope plain
  return scope

def bindArguments (apply : Apply) (id : Ident) (c : Closure) (args : List Value) (site : CallSite) :
    Run Binding :=
  let f := c.func
  let supplied := (plainArgs args).length
  if supplied < f.required then
    if args.isEmpty then fail (.missingArguments f.name f.required)
    else do return .short (← partialApp (.function id c) args (f.required - supplied))
  else if !f.isVariadic && f.params.length < supplied then
    fail (.arityMismatch f.name f.params.length supplied)
  else do return .ready (← bindScope apply c args site)

def callGlobal (apply : Apply) (name : String) (args : List Value) : Run Value := do
  let callee ← lookup Store.global name
  apply callee args { name, scope := some Store.global }

def perform (apply : Apply) : Action → Run Value
  | .done v => pure v
  | .fail f => throw f
  | .write text next => do
    modify fun m => { m with output := m.output ++ text }
    perform apply next
  | .fresh next => do perform apply (next (← fresh))
  | .depths next => do
    reach .depths
    let m ← machine
    perform apply (next m.calls.depth m.witnesses.depth m.typeContext.depth)
  | .limits next => do
    reach .limits
    perform apply (next (← setting).limits)
  | .look next => do
    let m ← machine
    perform apply (next m.registry m.store)
  | .newScope parent next => do perform apply (next (← newScope parent))
  | .define scope name v next => do
    define scope name v
    perform apply next
  | .assign scope name v next => do
    let r ← attempt (assign scope name v)
    perform apply (next r.isOk)
  | .apply callee args site next => do
    let r ← attempt (apply callee args site)
    perform apply (next r)
  | .call name args next => do
    let r ← attempt (callGlobal apply name args)
    perform apply (next r)
  | .eval e next => do
    let r ← attempt (evalValue apply {} Store.global e)
    perform apply (next r)
  | .resolve method args site next => do
    let r ← attempt (resolve method args site)
    perform apply (next r)
  | .load p next => do
    let r ← attempt (loading apply p)
    perform apply (next r)
  | .register r next => do
    register r
    perform apply next

def fallback : Run (Option FallbackHandler) := fun s m => .done (s.host.fallbackOn m) m

def runNative (apply : Apply) (args : List Value) : Native → Run Value
  | .core c => perform apply (c.action args)
  | .host name => do perform apply ((← setting).host.native name args)
  | .resume name rest body scope => do
    let inner ← newScope scope
    define inner name (args.headD .unit)
    settled apply (evalForm apply {} inner {} (.doChain rest body))

def invoke (apply : Apply) (b : Builtin) (args : List Value) : Run Value := do
  reach (.native b args)
  runNative apply args b.native

/-- Applies a builtin. One with a function type is applied like a function: dictionaries in front
do not count, missing arguments at the end are replaced by defaults. -/
def callBuiltin (apply : Apply) (b : Builtin) (args : List Value) : Run Value :=
  match b.arity with
  | none => invoke apply b args
  | some arity =>
    let args := plainArgs args
    let required := arity - b.defaults.length
    if args.isEmpty ∧ 0 < required then fail (.missingArguments b.name required)
    else if args.length < required then partialApp (.builtin b) args (required - args.length)
    else if arity < args.length then fail (.arityMismatch b.name arity args.length)
    else
      let missing := arity - args.length
      invoke apply b (args ++ b.defaults.drop (b.defaults.length - missing))

/-- Applies what does not run a function body. -/
def applyNative (apply : Apply) (callee : Value) (args : List Value) (site : CallSite) :
    Run Value := do
  let located := mapFault (α := Value) (·.orLocation site.span)
  match callee with
  | .builtin b => located (callBuiltin apply b args)
  | .constructor id type name arity =>
    located
      (if args.length = arity then pure (.data type name args)
      else if args.isEmpty then fail (.missingArguments name arity)
      else if args.length < arity then
        partialApp (.constructor id type name arity) args (arity - args.length)
      else fail (.arityMismatch name arity args.length))
  | .operator op =>
    located
      (match args with
      | [] => fail (.missingArguments op.text 2)
      | [_] => partialApp (.operator op) args 1
      | [l, r] => ofCause (op.eval l r)
      | _ => fail (.arityMismatch op.text 2 args.length))
  | .composed _ outer inner =>
    -- a fault of the inner call is not placed at this site
    let v ← apply inner args site
    located (apply outer [v] site)
  | .function _ _ | .partialApp _ _ _ _ | .bound _ _ _ | .method _ _ =>
    located (apply callee args site)
  | other =>
    let answer := (← fallback).bind fun handler => handler other args
    located (ofExcept (answer.getD (.error { cause := .notCallable other.typeName })))

/-- Peels a partial application or a receiver off a callee, or resolves a trait method. -/
def reduceStep (site : CallSite) (p : Pending) : Run (Pending ⊕ Reduced) := do
  match p.callee with
  | .partialApp _ callee first _ => return .inl { p with callee, args := first ++ p.args }
  | .bound _ callee receiver => return .inl { p with callee, args := receiver :: p.args }
  | .method id m =>
    let supplied := (plainArgs p.args).length
    if 0 < supplied ∧ supplied < m.arity then
      return .inr (.short (← partialApp p.callee p.args (m.arity - supplied)))
    else
      let r ← resolve m p.args site
      if r.callee.isMethod id then fail (.noImplementation m.traitName "unknown" m.method)
      else return .inl { callee := r.callee, args := r.args, witness := r.frame <|> p.witness }
  | _ => return .inr (.call p)

def reduce (fuel : Nat) (callee : Value) (args : List Value) (site : CallSite) : Run Reduced :=
  iterate (reduceStep site) fuel { callee, args }

/-- Brings in the evidence that a closure captured and what its declared result tells. -/
def pushEvidence (c : Closure) (scope : ScopeId) : Run Unit := do
  pushWitness c.witnesses
  pushWitness ((← machine).returnWitness c scope)

/-- Brings in the evidence for a function and binds its arguments; what follows is its body. -/
def openBody (apply : Apply) (id : Ident) (c : Closure) (p : Pending) (site : CallSite) :
    Run Binding := do
  pushWitness p.witness
  match ← bindArguments apply id c p.args site with
  | .short v => return .short v
  | .ready scope =>
    pushEvidence c scope
    return .ready scope

/-- Goes on after a body. A call that it left takes over the frame: dispatch sees the evidence of
the caller, the callee runs without it. -/
def handOver (fuel base : Nat) : Step → Run (LoopState ⊕ Value)
  | .done v => return .inr v
  | .tail callee args site => do
    match ← mapFault (·.orLocation site.span) (reduce fuel callee args site) with
    | .short v => return .inr v
    | .call next =>
      modify fun m =>
        { m with witnesses := m.witnesses.cut base, calls := m.calls.replaceTop (m.frame site) }
      return .inl { next with site, reentered := true }

def runFunction (apply : Apply) (fuel base : Nat) (id : Ident) (c : Closure) (st : LoopState) :
    Run (LoopState ⊕ Value) := do
  let atSite := Fault.atTailSite st.site st.reentered
  match ← mapFault atSite (openBody apply id c st.toPending st.site) with
  | .short v => return .inr v
  | .ready scope =>
    reach (.body c scope)
    handOver fuel base (← mapFault atSite (evalNode apply { tail := true } scope c.func.body))

/-- Runs what is no function; it leaves no call. -/
def runOther (apply : Apply) (st : LoopState) : Run Value := do
  pushWitness st.witness
  mapFault (Fault.atTailSite st.site st.reentered) (applyNative apply st.callee st.args st.site)

/-- Runs one callee of the loop that started at witness depth `base`. -/
def loopStep (apply : Apply) (fuel base : Nat) (st : LoopState) : Run (LoopState ⊕ Value) :=
  match st.callee with
  | .function id c => runFunction apply fuel base id c st
  | _ => do return .inr (← runOther apply st)

/-- Runs a callee and all that it calls in tail position. -/
def trampoline (apply : Apply) (fuel : Nat) (callee : Value) (args : List Value) (site : CallSite) :
    Run Value :=
  keepingWitnesses do
    let base := (← machine).witnesses.depth
    match ← reduce fuel callee args site with
    | .short v => return v
    | .call p => iterate (loopStep apply fuel base) fuel { p with site, reentered := false }

def overflow (site : CallSite) : Run Value := do
  reach (.overflow site)
  let limits := (← setting).limits
  let f : Fault := { cause := .stackOverflow limits.maxCallDepth }
  let trace := CallFrame.capture (← machine).calls limits.traceLimit
  throw ((f.orLocation site.span).orTrace trace)

/-- Runs `x` as a call, unless too many are in progress. -/
def asCall (site : CallSite) (x : Run Value) : Run Value := fun s m =>
  if s.limits.maxCallDepth ≤ m.calls.depth then overflow site s m
  else withCall (m.frame site) x s m

def applyWith (apply : Apply) (fuel : Nat) (callee : Value) (args : List Value) (site : CallSite) :
    Run Value :=
  asCall site (trampoline apply fuel callee args site)

end Run

def apply : Nat → Apply
  | 0, _, _, _ => Run.outOfFuel
  | fuel + 1, callee, args, site => Run.applyWith (apply fuel) fuel callee args site

end TraitLang
