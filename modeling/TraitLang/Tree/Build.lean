import TraitLang.Tree.Program

/-!
Trees built by hand: nodes without a source position, and call nodes that draw their identity from
a counter.
-/
namespace TraitLang.Build

/-- The first identity that is drawn; those chosen by hand are to stay below. -/
def firstDrawn : NodeId := 0x1000000

/-- Trees whose call nodes draw identities. -/
abbrev Draw := StateM NodeId

def draw : Draw NodeId := modifyGet fun n => (n, n + 1)

abbrev Node := Spanned Expr

def int (n : Int64) : Node := ⟨.lit (.int n), {}⟩
def float (x : Float) : Node := ⟨.lit (.float x), {}⟩
def bool (b : Bool) : Node := ⟨.lit (.bool b), {}⟩
def str (s : String) : Node := ⟨.lit (.str s), {}⟩
def unit : Node := ⟨.lit .unit, {}⟩
def var (name : String) : Node := ⟨.var name, {}⟩
def list (items : List Node) : Node := ⟨.list items, {}⟩
def tuple (items : List Node) : Node := ⟨.tuple items, {}⟩
def record (fields : List (String × Node)) : Node := ⟨.record fields, {}⟩

/-- A call whose identity is given, for the sake of hints about it. -/
def callAt (id : NodeId) (callee : Node) (args : List Node) : Node := ⟨.call id callee args, {}⟩

def call (callee : Node) (args : List Node) : Draw Node := do return callAt (← draw) callee args

def methodCall (receiver : Node) (method : String) (args : List Node) : Draw Node := do
  return ⟨.methodCall (← draw) receiver method args, {}⟩

def field (target : Node) (name : String) : Node := ⟨.field target name, {}⟩
def binary (left : Node) (op : BinOp) (right : Node) : Node := ⟨.binary left op right, {}⟩
def unary (op : UnOp) (operand : Node) : Node := ⟨.unary op operand, {}⟩
def cond (test yes no : Node) : Node := ⟨.cond test yes no, {}⟩

def letIn (name : String) (ty : Option Ty) (value body : Node) : Node :=
  ⟨.letIn name ty value body, {}⟩

def block (body : List Node) : Node := ⟨.block body, {}⟩
def assign (name : String) (value : Node) : Node := ⟨.assign name value, {}⟩
def annotated (expr : Node) (ty : Ty) : Node := ⟨.annotated expr ty, {}⟩
def dict (traitName : String) (types : List Ty) : Node := ⟨.dict traitName types, {}⟩
def compose (outer inner : Node) : Node := ⟨.compose outer inner, {}⟩

def doChain (binds : List (String × Node)) (body : Node) : Node :=
  ⟨.doChain (binds.map fun (name, value) => ⟨name, value⟩) body, {}⟩

def attempt (body : Node) : Node := ⟨.attempt body, {}⟩

def choose (scrutinee : Node) (arms : List (Pattern × Node)) : Node :=
  ⟨.choose scrutinee (arms.map fun (pattern, body) => ⟨⟨pattern, {}⟩, body⟩), {}⟩

/-- A parameter without a type that every caller has to supply. -/
def param (name : String) : Param := ⟨name, none, none, false⟩

def params (names : List String) : List Param := names.map param

/-- A function without a result type. -/
def func (name : String) (params : List Param) (body : Node) : Func :=
  ⟨name, params, none, [], [], body, {}⟩

def lambda (names : List String) (body : Node) : Node :=
  ⟨.lambda (func "<lambda>" (params names) body), {}⟩

def data (name : String) (ctors : List (String × Nat)) : Item :=
  .data ⟨name, ctors.map fun (name, arity) => ⟨name, arity⟩⟩

def traitDecl (name : String) (methods : List (String × Nat)) : Item :=
  .traitDecl ⟨name, methods.map fun (name, arity) => ⟨name, arity, none⟩⟩

def inst (traitName : String) (types : List Ty) (methods : List Func) : Item :=
  .inst ⟨traitName, types, methods⟩

def const (name : String) (ty : Option Ty) (value : Node) : Item := .const ⟨name, ty, value⟩

@[simp] theorem required_func (name : String) (names : List String) (body : Node) :
    (func name (params names) body).required = names.length := by
  simp [Func.required, func, params, param, List.countP_map, Function.comp_def]

end TraitLang.Build
