import TraitLang.Json.Printer
import TraitLang.Tree.Program

/-!
The interchange format, writing. A variant is an object of one member, a variant without content a
bare string; fields come in a fixed order and none is left out.
-/
namespace TraitLang

namespace Json

/-- A variant with its content. -/
def variant (tag : String) (content : Json) : Json := .object [(some tag, content)]

/-- A variant with named fields. -/
def fields (tag : String) (members : List (String × Json)) : Json := variant tag (record members)

def ofOption {α : Type} (f : α → Json) : Option α → Json
  | none => .null
  | some a => f a

def strings (xs : List String) : Json := .array (xs.map ofString)

/-- A finite float; others have no notation. -/
def ofFloat (x : Float) : Json :=
  if x.isNaN || x.isInf then .null
  else .number (.decimal (Text.isNegative x) (Decimal.shortest .even (Binary.ofBits x.toBits)))

end Json

open Json (variant fields ofString ofNat ofOption strings record)

def Span.toJson (s : Span) : Json :=
  record [("line", ofNat s.line.toNat), ("col", ofNat s.col.toNat)]

mutual

def Ty.toJson : Ty → Json
  | .con name => variant "Con" (ofString name)
  | .var name => variant "Var" (ofString name)
  | .app head args => fields "App" [("head", head.toJson), ("args", .array (Ty.allToJson args))]
  | .fn params ret => fields "Fn" [("params", .array (Ty.allToJson params)), ("ret", ret.toJson)]
  | .tuple elems => variant "Tuple" (.array (Ty.allToJson elems))

def Ty.allToJson : List Ty → List Json
  | [] => []
  | t :: ts => t.toJson :: Ty.allToJson ts

end

def Literal.toJson : Literal → Json
  | .int n => variant "Int" (.ofInt n.toInt)
  | .float x => variant "Float" (.ofFloat x)
  | .bool b => variant "Bool" (.bool b)
  | .char c => variant "Char" (ofString c.toString)
  | .str s => variant "Str" (ofString s)
  | .unit => ofString "Unit"

def BinOp.tag : BinOp → String
  | .add => "Add" | .sub => "Sub" | .mul => "Mul" | .div => "Div" | .mod => "Mod"
  | .eq => "Eq" | .ne => "Ne" | .lt => "Lt" | .gt => "Gt" | .le => "Le" | .ge => "Ge"
  | .and => "And" | .or => "Or"

def BinOp.toJson (op : BinOp) : Json := ofString op.tag

def UnOp.tag : UnOp → String
  | .neg => "Neg"
  | .not => "Not"

def UnOp.toJson (op : UnOp) : Json := ofString op.tag

mutual

def Pattern.toJson : Pattern → Json
  | .wildcard => ofString "Wildcard"
  | .var name => variant "Var" (ofString name)
  | .literal l => variant "Literal" l.toJson
  | .constructor name ps =>
    fields "Constructor" [("name", ofString name), ("fields", .array (Pattern.allToJson ps))]
  | .tuple ps => variant "Tuple" (.array (Pattern.allToJson ps))
  | .record ps => variant "Record" (.array (Pattern.fieldsToJson ps))

def Pattern.allToJson : List Pattern → List Json
  | [] => []
  | p :: ps => p.toJson :: Pattern.allToJson ps

def Pattern.fieldsToJson : List (String × Pattern) → List Json
  | [] => []
  | (name, p) :: ps => .array [ofString name, p.toJson] :: Pattern.fieldsToJson ps

end

def Constraint.toJson (c : Constraint) : Json :=
  record [("type_var", ofString c.typeVar), ("trait_name", ofString c.traitName)]

def WitnessParam.toJson (p : WitnessParam) : Json :=
  record [("name", ofString p.name), ("trait_name", ofString p.traitName)]

mutual

def Expr.toJson : Expr → Json
  | .lit l => variant "Lit" l.toJson
  | .var name => variant "Var" (ofString name)
  | .list items => variant "List" (.array (Expr.allToJson items))
  | .tuple items => variant "Tuple" (.array (Expr.allToJson items))
  | .record fs => variant "Record" (.array (Expr.fieldsToJson fs))
  | .range start stop =>
    fields "Range" [("start", Expr.nodeToJson start), ("end", Expr.nodeToJson stop)]
  | .lambda f => variant "Lambda" f.toJson
  | .call id callee args =>
    fields "Call" [("id", ofNat id.toNat), ("callee", Expr.nodeToJson callee),
      ("args", .array (Expr.allToJson args))]
  | .methodCall id receiver method args =>
    fields "MethodCall" [("id", ofNat id.toNat), ("receiver", Expr.nodeToJson receiver),
      ("method", ofString method), ("args", .array (Expr.allToJson args))]
  | .field target name =>
    fields "Field" [("target", Expr.nodeToJson target), ("field", ofString name)]
  | .binary left op right =>
    fields "Binary" [("left", Expr.nodeToJson left), ("op", op.toJson),
      ("right", Expr.nodeToJson right)]
  | .unary op operand => fields "Unary" [("op", op.toJson), ("expr", Expr.nodeToJson operand)]
  | .operator op => variant "OperatorRef" op.toJson
  | .compose outer inner =>
    fields "Compose" [("outer", Expr.nodeToJson outer), ("inner", Expr.nodeToJson inner)]
  | .cond test yes no =>
    fields "If" [("cond", Expr.nodeToJson test), ("then_branch", Expr.nodeToJson yes),
      ("else_branch", Expr.nodeToJson no)]
  | .letIn name ty value body =>
    fields "Let" [("name", ofString name), ("ty", ofOption Ty.toJson ty),
      ("value", Expr.nodeToJson value), ("body", Expr.nodeToJson body)]
  | .block body => variant "Block" (.array (Expr.allToJson body))
  | .assign name value =>
    fields "Assign" [("name", ofString name), ("value", Expr.nodeToJson value)]
  | .annotated e ty => fields "Annotated" [("expr", Expr.nodeToJson e), ("ty", ty.toJson)]
  | .choose scrutinee arms =>
    fields "Match" [("expr", Expr.nodeToJson scrutinee), ("arms", .array (Arm.allToJson arms))]
  | .dict traitName types =>
    fields "Dict" [("trait_name", ofString traitName), ("types", .array (Ty.allToJson types))]
  | .doChain binds body =>
    fields "Do" [("binds", .array (DoBind.allToJson binds)), ("body", Expr.nodeToJson body)]
  | .attempt body => variant "Try" (Expr.nodeToJson body)

/-- An expression with its position. -/
def Expr.nodeToJson : Spanned Expr → Json
  | ⟨node, span⟩ => record [("node", node.toJson), ("span", span.toJson)]

def Expr.allToJson : List (Spanned Expr) → List Json
  | [] => []
  | e :: es => Expr.nodeToJson e :: Expr.allToJson es

def Expr.fieldsToJson : List (String × Spanned Expr) → List Json
  | [] => []
  | (name, e) :: es => .array [ofString name, Expr.nodeToJson e] :: Expr.fieldsToJson es

def Func.toJson : Func → Json
  | ⟨name, params, retTy, constraints, witnessParams, body, span⟩ =>
    record [("name", ofString name), ("params", .array (Param.allToJson params)),
      ("ret_ty", ofOption Ty.toJson retTy),
      ("constraints", .array (constraints.map Constraint.toJson)),
      ("witness_params", .array (witnessParams.map WitnessParam.toJson)),
      ("body", Expr.nodeToJson body), ("span", span.toJson)]

def Param.toJson : Param → Json
  | ⟨name, ty, default, variadic⟩ =>
    record [("name", ofString name), ("ty", ofOption Ty.toJson ty),
      ("default", Expr.optionToJson default), ("variadic", .bool variadic)]

def Expr.optionToJson : Option (Spanned Expr) → Json
  | none => .null
  | some e => Expr.nodeToJson e

def Param.allToJson : List Param → List Json
  | [] => []
  | p :: ps => p.toJson :: Param.allToJson ps

def Arm.toJson : Arm → Json
  | ⟨pattern, body⟩ =>
    record [("pattern", record [("node", pattern.node.toJson), ("span", pattern.span.toJson)]),
      ("body", Expr.nodeToJson body)]

def Arm.allToJson : List Arm → List Json
  | [] => []
  | a :: as => a.toJson :: Arm.allToJson as

def DoBind.toJson : DoBind → Json
  | ⟨name, value⟩ => record [("name", ofString name), ("value", Expr.nodeToJson value)]

def DoBind.allToJson : List DoBind → List Json
  | [] => []
  | b :: bs => b.toJson :: DoBind.allToJson bs

end

def Ctor.toJson (c : Ctor) : Json :=
  record [("name", ofString c.name), ("arity", ofNat c.arity)]

def DispatchPos.toJson : DispatchPos → Json
  | .arg index => variant "Arg" (ofNat index)
  | .result => ofString "Return"

def TraitMethod.toJson (m : TraitMethod) : Json :=
  record [("name", ofString m.name), ("arity", ofNat m.arity),
    ("dispatch", ofOption (fun ds => .array (ds.map DispatchPos.toJson)) m.dispatch)]

def Item.toJson : Item → Json
  | .func f => variant "Fn" f.toJson
  | .data d =>
    fields "Data" [("name", ofString d.name),
      ("constructors", .array (d.constructors.map Ctor.toJson))]
  | .traitDecl t =>
    fields "Trait" [("name", ofString t.name),
      ("methods", .array (t.methods.map TraitMethod.toJson))]
  | .inst i =>
    fields "Instance" [("trait_name", ofString i.traitName),
      ("types", .array (i.types.map Ty.toJson)), ("methods", .array (i.methods.map Func.toJson))]
  | .const c =>
    fields "Const" [("name", ofString c.name), ("ty", ofOption Ty.toJson c.ty),
      ("value", Expr.nodeToJson c.value)]

def Program.toJson (p : Program) : Json :=
  record [("file", ofString p.file), ("items", .array (p.items.map Item.toJson))]

/-- An object with one member for each entry of a table. -/
def Json.ofTable {κ α : Type} (key : κ → String) (value : α → Json) (table : List (κ × α)) : Json :=
  record (table.map fun (k, a) => (key k, value a))

def Hints.toJson (h : Hints) : Json :=
  let node : NodeId → String := fun id => toString id
  record [("node_types", .ofTable node Ty.toJson h.nodeTypes),
    ("instantiations", .ofTable node (Json.ofTable id Ty.toJson) h.instantiations),
    ("aliases", .ofTable id Ty.toJson h.aliases),
    ("super_traits", .ofTable id strings h.superTraits),
    ("method_order", .ofTable id strings h.methodOrder),
    ("trait_defaults", .ofTable id (fun fs => .array (fs.map Func.toJson)) h.traitDefaults)]

def AnalyzedProgram.toJson (p : AnalyzedProgram) : Json :=
  record [("program", p.program.toJson), ("hints", p.hints.toJson)]

end TraitLang
