import TraitLang.Arith
import TraitLang.Dispatch
import TraitLang.Pattern
import TraitLang.Value.Text

/-!
Evaluating expressions, given a way to apply callables. Evaluation follows the structure of the
expression; a call in tail position is handed back instead of being made.
-/
namespace TraitLang

abbrev Apply := Value → List Value → CallSite → Run Value

/-- What the surroundings of an expression ask of it. -/
structure EvalCtx where
  /-- its value is the result of the function body -/
  tail : Bool := false
  /-- declared type of what its value flows into -/
  annotation : Option Ty := none

inductive Step where
  | done (v : Value)
  /-- a call left to whoever runs the body -/
  | tail (callee : Value) (args : List Value) (site : CallSite)

def Step.settle (apply : Apply) : Step → Run Value
  | done v => pure v
  | tail callee args site => apply callee args site

/-- An index in decimal digits, with or without a plus sign. -/
def index? (s : String) : Option Nat :=
  let digits := match s.toList with
    | '+' :: cs => cs
    | cs => cs
  if digits.isEmpty || !digits.all Char.isDigit then none
  else
    let n := digits.foldl (fun n c => n * 10 + (c.toNat - '0'.toNat)) 0
    if n < UInt64.size then some n else none

namespace Value

def foreign? : Value → Option (String × Ident)
  | host type handle => some (type, handle)
  | _ => none

def member? (name : String) : Value → Option Value
  | record fields => (fields.lookup name).filter isCallable
  | _ => none

def field (name : String) : Value → Except Cause Value
  | record fields =>
    (fields.lookup name).elim
      (.error (.patternMismatch ("record has no field `" ++ name ++ "`"))) .ok
  | tuple items =>
    ((index? name).bind fun i => items[i]?).elim
      (.error (.patternMismatch ("tuple has no field `" ++ name ++ "`"))) .ok
  | other => .error (.typeError "Record" other.typeName)

end Value

namespace Run

def settled (apply : Apply) (x : Run Step) : Run Value := do
  (← x).settle apply

/-- Leaves a call in tail position to the caller and makes any other. -/
def finishCall (apply : Apply) (ctx : EvalCtx) (callee : Value) (args : List Value)
    (site : CallSite) : Run Step :=
  if ctx.tail then pure (.tail callee args site)
  else do return .done (← apply callee args site)

def bridge : Run (Option Bridge) := fun s m => .done (s.host.bridgeOn m) m

/-- `recv.method(args)`: a member of a foreign value, a callable field of a record, or a function
of that name with the receiver in front. -/
def callMember (apply : Apply) (ctx : EvalCtx) (scope : ScopeId) (recv : Value) (method : String)
    (args : List Value) (site : CallSite) : Run Step := do
  match recv.foreign? with
  | some (type, handle) =>
    match ← bridge with
    | none =>
      fail (.host ("no host bridge configured to call `" ++ method ++ "` on " ++ type))
    | some bridge => return .done (← ofExcept (bridge.callMember type handle method args))
  | none =>
    match recv.member? method with
    | some callee => finishCall apply ctx callee args site
    | none =>
      let fn ← lookup scope method
      -- the call takes its callee apart before anything else is made: the identity stays free
      finishCall apply ctx (.bound (← machine).nextIdent fn recv) args site

def readField (v : Value) (field : String) : Run Value := do
  match v.foreign? with
  | some (type, handle) =>
    match ← bridge with
    | none =>
      fail (.host ("no host bridge configured to read `" ++ field ++ "` of " ++ type))
    | some bridge => ofExcept (bridge.readField type handle field)
  | none => ofCause (v.field field)

def buildDictionary (traitName : String) (key : TypeKey) : Run Dictionary := fun _ m =>
  match m.registry.dictionary? traitName key m.nextIdent with
  | some (d, next) => .done d { m with nextIdent := next }
  | none => .failed { cause := .noImplementation traitName key.text "<dictionary>" } m

/-- `do { name <- source; rest }` is `bind(source, \name -> do { rest })`, with the container type
of `source` as a hint. -/
def bindSource (apply : Apply) (scope : ScopeId) (source : Value) (name : String)
    (rest : List DoBind) (body : Spanned Expr) (span : Span) : Run Value :=
  withContainer source.typeName do
    let bind ← lookup scope "bind"
    let continuation := Value.builtin {
      id := ← fresh
      name := "<do>"
      native := .resume name rest body scope
      signature := some (.fn [.var "a"] (.var "b"))
      defaults := [] }
    apply bind [source, continuation] { name := "bind", span, scope := some scope }

end Run

open Run

def Value.asBool : Value → Run Bool
  | .bool b => pure b
  | v => fail (.typeError "Bool" v.typeName)

mutual

/-- Evaluates an expression; a fault without position gets that of the expression. -/
def evalNode (apply : Apply) (ctx : EvalCtx) (scope : ScopeId) : Spanned Expr → Run Step
  | ⟨e, span⟩ => mapFault (·.orLocation span) (evalForm apply ctx scope span e)
termination_by structural e => e

def evalForm (apply : Apply) (ctx : EvalCtx) (scope : ScopeId) (span : Span) : Expr → Run Step
  | .lit l => pure (.done (.ofLiteral l))
  | .var name => do return .done (← lookup scope name)
  | .list items => do return .done (.list (← evalAll apply scope items))
  | .tuple items => do return .done (.tuple (← evalAll apply scope items))
  | .record fields => do return .done (.record (← evalFields apply scope [] fields))
  | .range start stop => do
    let first ← settled apply (evalNode apply {} scope start)
    let last ← settled apply (evalNode apply {} scope stop)
    return .done (← ofCause (first.upTo last))
  | .lambda f => do
    let witnesses := (← machine).witnesses.merged
    return .done (.function (← fresh) { func := f, scope, witnesses })
  | .call id callee args => do
    let fn ← settled apply (evalNode apply {} scope callee)
    let vals ← evalAll apply scope args
    let name := match callee.node with
      | .var name => name
      | _ => fn.callableName
    finishCall apply ctx fn vals
      { name, node := some id, span, annotation := ctx.annotation, scope := some scope }
  | .methodCall id receiver method args => do
    let recv ← settled apply (evalNode apply {} scope receiver)
    let vals ← evalAll apply scope args
    callMember apply ctx scope recv method vals
      { name := method, node := some id, span, annotation := ctx.annotation, scope := some scope }
  | .field target name => do
    let v ← settled apply (evalNode apply {} scope target)
    return .done (← readField v name)
  | .binary left op right => do
    let l ← settled apply (evalNode apply {} scope left)
    if op = .and ∨ op = .or then
      let b ← l.asBool
      if (op == .and) == b then
        let r ← settled apply (evalNode apply {} scope right)
        return .done (.bool (← r.asBool))
      else return .done (.bool b)
    else
      let r ← settled apply (evalNode apply {} scope right)
      return .done (← ofCause (op.eval l r))
  | .unary op operand => do
    let v ← settled apply (evalNode apply {} scope operand)
    return .done (← ofCause (op.eval v))
  | .operator op => pure (.done (.operator op))
  | .compose outer inner => do
    let f ← settled apply (evalNode apply {} scope outer)
    let g ← settled apply (evalNode apply {} scope inner)
    return .done (.composed (← fresh) f g)
  | .cond test yes no => do
    let v ← settled apply (evalNode apply {} scope test)
    if ← v.asBool then evalNode apply ctx scope yes else evalNode apply ctx scope no
  | .letIn name ty value body => do
    let v ← settled apply (evalNode apply { annotation := ty } scope value)
    let inner ← newScope scope
    define inner name v
    evalNode apply ctx inner body
  | .block [] => pure (.done .unit)
  | .block (e :: es) => do
    let inner ← newScope scope
    evalSeq apply ctx inner (e :: es)
  | .assign name value => do
    let v ← settled apply (evalNode apply {} scope value)
    Run.assign scope name v
    return .done .unit
  | .annotated e ty => do
    let resolved := (← machine).resolveType ty scope
    let v ← withExpected resolved
      (settled apply (evalNode apply { annotation := some resolved } scope e))
    return .done v
  | .choose scrutinee arms => do
    let v ← settled apply (evalNode apply {} scope scrutinee)
    evalArms apply ctx scope v arms
  | .dict traitName types => do
    match types with
    | [] => return .done (.dictionary (.placeholder (← fresh) traitName))
    | types => return .done (.dictionary (← buildDictionary traitName (.ofTypes types)))
  | .doChain [] body => do
    return .done (← settled apply (evalNode apply {} scope body))
  | .doChain (⟨name, value⟩ :: rest) body => do
    let source ← settled apply (evalNode apply {} scope value)
    return .done (← bindSource apply scope source name rest body value.span)
  | .attempt body => do
    match ← Run.attempt (settled apply (evalNode apply {} scope body)) with
    | .ok v => return .done v
    | .error f => return .done (.error (← fresh) f)

def evalAll (apply : Apply) (scope : ScopeId) : List (Spanned Expr) → Run (List Value)
  | [] => pure []
  | e :: es => do
    let v ← settled apply (evalNode apply {} scope e)
    let vs ← evalAll apply scope es
    return v :: vs

/-- Fields of a record, added to those already there. -/
def evalFields (apply : Apply) (scope : ScopeId) (done : List (String × Value)) :
    List (String × Spanned Expr) → Run (List (String × Value))
  | [] => pure done
  | (name, e) :: es => do
    let v ← settled apply (evalNode apply {} scope e)
    evalFields apply scope (Assoc.insert name v done) es

/-- Expressions in a row; the last one takes the place of all. -/
def evalSeq (apply : Apply) (ctx : EvalCtx) (scope : ScopeId) : List (Spanned Expr) → Run Step
  | [] => pure (.done .unit)
  | [e] => evalNode apply ctx scope e
  | e :: e' :: es => do
    discard (settled apply (evalNode apply {} scope e))
    evalSeq apply ctx scope (e' :: es)

/-- The first arm that matches. Each one is tried in a scope of its own. -/
def evalArms (apply : Apply) (ctx : EvalCtx) (scope : ScopeId) (v : Value) : List Arm → Run Step
  | [] => fail (.patternMismatch ("no arm matches " ++ v.text))
  | ⟨pattern, body⟩ :: arms => do
    let inner ← newScope scope
    if ← pattern.node.matchInto inner v then evalNode apply ctx inner body
    else evalArms apply ctx scope v arms

end

def evalValue (apply : Apply) (ctx : EvalCtx) (scope : ScopeId) (e : Spanned Expr) : Run Value :=
  settled apply (evalNode apply { ctx with tail := false } scope e)

end TraitLang
