import TraitLang.Stack
import TraitLang.Tree.Span

/-!
Failures of a running program. The cause fixes kind and wording; position and call trace are
attached on the way out, each at most once.
-/
namespace TraitLang

/-- One call in progress. -/
structure CallFrame where
  name : String
  file : String
  span : Span
deriving DecidableEq, Repr, Inhabited

namespace CallFrame

def text (f : CallFrame) : String :=
  if f.span.isKnown then f.name ++ " (" ++ f.file ++ ":" ++ f.span.text ++ ")"
  else f.name ++ " (" ++ f.file ++ ")"

/-- The innermost `limit` frames, innermost first. -/
def capture (calls : Stack CallFrame) (limit : Nat) : List CallFrame :=
  calls.toList.reverse.take limit

end CallFrame

inductive Cause where
  | undefinedVariable (name : String)
  | typeError (expected got : String)
  | notCallable (type : String)
  | expectedDictionary (got : String)
  | arityMismatch (name : String) (expected got : Nat)
  | missingArguments (name : String) (required : Nat)
  | witnessMismatch (name : String) (expected got : Nat)
  | noImplementation (traitName type method : String)
  | patternMismatch (detail : String)
  | divisionByZero
  | stackOverflow (limit : Nat)
  | host (detail : String)
  | user (message : String)
deriving DecidableEq, Repr, Inhabited

inductive FaultKind where
  | arity | dispatch | pattern | typeShape | undefinedVariable
  | divisionByZero | stackOverflow | host | user
deriving DecidableEq, Repr, Inhabited

namespace Cause

def kind : Cause → FaultKind
  | undefinedVariable _ => .undefinedVariable
  | typeError _ _ | notCallable _ | expectedDictionary _ => .typeShape
  | arityMismatch _ _ _ | missingArguments _ _ | witnessMismatch _ _ _ => .arity
  | noImplementation _ _ _ => .dispatch
  | patternMismatch _ => .pattern
  | divisionByZero => .divisionByZero
  | stackOverflow _ => .stackOverflow
  | host _ => .host
  | user _ => .user

def message : Cause → String
  | undefinedVariable name => "undefined variable: " ++ name
  | typeError expected got => "type error: expected " ++ expected ++ ", got " ++ got
  | notCallable type => "not a function: " ++ type
  | expectedDictionary got => "expected Dictionary, got " ++ got
  | arityMismatch name expected got =>
    "function " ++ name ++ " expects " ++ toString expected ++ " argument(s), got " ++ toString got
  | missingArguments name required =>
    "function " ++ name ++ " called without arguments, requires " ++ toString required
  | witnessMismatch name expected got =>
    "function " ++ name ++ " expects " ++ toString expected ++ " witness dictionar(ies), got " ++
      toString got
  | noImplementation traitName type method =>
    "no implementation of trait " ++ traitName ++ " for type " ++ type ++ ", method " ++ method
  | patternMismatch detail => "pattern mismatch: " ++ detail
  | divisionByZero => "division by zero"
  | stackOverflow limit => "stack overflow: call depth exceeded " ++ toString limit
  | host detail => "host interop: " ++ detail
  | user message => message

end Cause

structure Fault where
  cause : Cause
  /-- position of the failing expression -/
  location : Option Span := none
  /-- calls in progress when the failure first surfaced, innermost first -/
  trace : Option (List CallFrame) := none
deriving DecidableEq, Repr, Inhabited

namespace Fault

def kind (f : Fault) : FaultKind := f.cause.kind

def message (f : Fault) : String := f.cause.message

/-- Attaches a known position unless there is one already. -/
def orLocation (f : Fault) (span : Span) : Fault :=
  if f.location.isNone && span.isKnown then { f with location := some span } else f

/-- Attaches a trace unless there is one already; only then is it computed. -/
@[macro_inline] def orTrace (f : Fault) (trace : List CallFrame) : Fault :=
  if f.trace.isNone then { f with trace := some trace } else f

@[simp] theorem cause_orLocation (f : Fault) (span : Span) :
    (f.orLocation span).cause = f.cause := by
  unfold orLocation; split <;> rfl

@[simp] theorem cause_orTrace (f : Fault) (trace : List CallFrame) :
    (f.orTrace trace).cause = f.cause := by
  unfold orTrace; split <;> rfl

@[simp] theorem trace_orLocation (f : Fault) (span : Span) :
    (f.orLocation span).trace = f.trace := by
  unfold orLocation; split <;> rfl

/-- One line for a log. -/
def text (f : Fault) : String :=
  "Runtime error: " ++ f.message ++ (f.location.elim "" fun s => " at " ++ s.text)

/-- Report for a terminal: message, position in `file`, call trace. -/
def render (file : String) (f : Fault) : String :=
  let pointer := f.location.elim "" fun s => " --> " ++ file ++ ":" ++ s.text ++ "\n"
  let calls := match f.trace with
    | none | some [] => ""
    | some frames =>
      "call trace:\n" ++ String.join (frames.map fun fr => "  at " ++ fr.text ++ "\n")
  "error: " ++ f.message ++ "\n" ++ pointer ++ calls

end Fault

end TraitLang
