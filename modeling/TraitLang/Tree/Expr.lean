import TraitLang.Tree.Span
import TraitLang.Tree.Ty

/-!
Expressions, patterns and function definitions. A tree arrives parsed and analysed: calls carry the
identity under which an analyser keeps its findings, and dictionary parameters are spelled out.
-/
namespace TraitLang

abbrev NodeId := UInt32

inductive Literal where
  | int (n : Int64)
  | float (x : Float)
  | bool (b : Bool)
  | char (c : Char)
  | str (s : String)
  | unit
deriving Inhabited

inductive BinOp where
  | add | sub | mul | div | mod
  | eq | ne | lt | gt | le | ge
  | and | or
deriving DecidableEq, Repr, Inhabited

def BinOp.text : BinOp → String
  | add => "+" | sub => "-" | mul => "*" | div => "/" | mod => "%"
  | eq => "==" | ne => "!=" | lt => "<" | gt => ">" | le => "<=" | ge => ">="
  | and => "&&" | or => "||"

inductive UnOp where
  | neg
  | not
deriving DecidableEq, Repr, Inhabited

inductive Pattern where
  | wildcard
  | var (name : String)
  | literal (l : Literal)
  | constructor (name : String) (fields : List Pattern)
  | tuple (items : List Pattern)
  | record (fields : List (String × Pattern))
deriving Inhabited

/-- A trait bound on a type variable of a function: `a: Monoid`. -/
structure Constraint where
  typeVar : String
  traitName : String
deriving DecidableEq, Repr, Inhabited

structure WitnessParam where
  name : String
  traitName : String
deriving DecidableEq, Repr, Inhabited

mutual

inductive Expr where
  | lit (l : Literal)
  | var (name : String)
  | list (items : List (Spanned Expr))
  | tuple (items : List (Spanned Expr))
  | record (fields : List (String × Spanned Expr))
  /-- `start..stop`, without `stop` -/
  | range (start stop : Spanned Expr)
  | lambda (f : Func)
  | call (id : NodeId) (callee : Spanned Expr) (args : List (Spanned Expr))
  | methodCall (id : NodeId) (receiver : Spanned Expr) (method : String)
      (args : List (Spanned Expr))
  | field (target : Spanned Expr) (name : String)
  | binary (left : Spanned Expr) (op : BinOp) (right : Spanned Expr)
  | unary (op : UnOp) (operand : Spanned Expr)
  /-- an operator as a function: `(+)` -/
  | operator (op : BinOp)
  | compose (outer inner : Spanned Expr)
  | cond (test yes no : Spanned Expr)
  | letIn (name : String) (ty : Option Ty) (value body : Spanned Expr)
  | block (body : List (Spanned Expr))
  | assign (name : String) (value : Spanned Expr)
  /-- `(expr : ty)` -/
  | annotated (expr : Spanned Expr) (ty : Ty)
  | choose (scrutinee : Spanned Expr) (arms : List Arm)
  /-- the dictionary of an instance, a placeholder if no type is given -/
  | dict (traitName : String) (types : List Ty)
  /-- `do { x <- m; body }` -/
  | doChain (binds : List DoBind) (body : Spanned Expr)
  /-- turns a failure into an error value -/
  | attempt (body : Spanned Expr)

/-- A definition shared by named functions, lambdas and instance methods. -/
structure Func where
  name : String
  params : List Param
  retTy : Option Ty
  constraints : List Constraint
  witnessParams : List WitnessParam
  body : Spanned Expr
  span : Span

structure Param where
  name : String
  ty : Option Ty
  default : Option (Spanned Expr)
  variadic : Bool

structure Arm where
  pattern : Spanned Pattern
  body : Spanned Expr

/-- One step `name <- value` of a do chain. -/
structure DoBind where
  name : String
  value : Spanned Expr

end

instance : Inhabited Expr := ⟨.lit .unit⟩
instance : Inhabited Func := ⟨⟨"", [], none, [], [], ⟨.lit .unit, {}⟩, {}⟩⟩

namespace Func

/-- Number of arguments that a caller has to supply. -/
def required (f : Func) : Nat :=
  f.params.countP fun p => p.default.isNone && !p.variadic

/-- The last parameter collects surplus arguments. -/
def isVariadic (f : Func) : Bool :=
  f.params.getLast?.any Param.variadic

/-- Parameters that take one argument each. -/
def fixedParams (f : Func) : List Param :=
  if f.isVariadic then f.params.dropLast else f.params

end Func

end TraitLang
