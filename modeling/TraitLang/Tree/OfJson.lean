import TraitLang.Assoc
import TraitLang.Json.Reader
import TraitLang.Tree.Program

/-!
The interchange format, reading. Fields may come in any order, unknown ones are skipped, and a
repeated one is refused; a list of the fields in their order does as well. `room` is the number of
brackets and braces that may still be opened, so that hostile nesting ends early.
-/
namespace TraitLang

namespace Json

mutual

/-- Number of containers that are open at once. -/
def depth : Json → Nat
  | array items => depthAll items + 1
  | object members => depthMembers members + 1
  | _ => 0

def depthAll : List Json → Nat
  | [] => 0
  | j :: rest => max j.depth (depthAll rest)

def depthMembers : List (Option String × Json) → Nat
  | [] => 0
  | (_, j) :: rest => max j.depth (depthMembers rest)

end

def text? : Json → Option String
  | string s => s
  | _ => none

def bool? : Json → Option Bool
  | bool b => some b
  | _ => none

/-- An integer in a range. -/
def intIn? (low high : Int) : Json → Option Int
  | number (.integer n) => if low ≤ n ∧ n ≤ high then some n else none
  | _ => none

def int64? (j : Json) : Option Int64 :=
  (j.intIn? Int64.minValue.toInt Int64.maxValue.toInt).map Int64.ofInt

def uint32? (j : Json) : Option UInt32 := (j.intIn? 0 (UInt32.size - 1)).map fun n => .ofNat n.toNat

/-- A count of 64 bits. -/
def count? (j : Json) : Option Nat := (j.intIn? 0 (UInt64.size - 1)).map Int.toNat

def float? : Json → Option Float
  | number n => n.toFloat?
  | _ => none

/-- A text of one character. -/
def char? (j : Json) : Option Char := do
  match (← j.text?).toList with
  | [c] => some c
  | _ => none

/-- A variant with its content. -/
def variant? : Json → Option (String × Json)
  | object [(some tag, content)] => some (tag, content)
  | _ => none

/-- A variant without content, as a bare tag or as a member with the value null. -/
def tag? (room : Nat) : Json → Option String
  | string s => s
  | object [(some tag, null)] => if 0 < room then some tag else none
  | _ => none

/-- The values of the named fields, `none` for those that are absent. -/
def slots? (names : List String) : Json → Option (List (Option Json))
  | object members =>
    if members.all fun m => m.1.isSome then
      names.mapM fun name =>
        match members.filter fun m => m.1 == some name with
        | [] => some none
        | [(_, j)] => some (some j)
        | _ => none
    else none
  | array items =>
    if items.length ≤ names.length then
      some (items.map some ++ List.replicate (names.length - items.length) none)
    else none
  | _ => none

/-- A field that has to be there. -/
def must {α : Type} (f : Json → Option α) (slot : Option Json) : Option α := slot.bind f

/-- A field with a value for its absence. -/
def may {α : Type} (absent : α) (f : Json → Option α) : Option Json → Option α
  | none => some absent
  | some j => f j

/-- Null or a value. -/
def nullable {α : Type} (f : Json → Option α) : Json → Option (Option α)
  | null => some none
  | j => (f j).map some

/-- A list; the items are read with the room that is left inside it. -/
def list? {α : Type} (f : Nat → Json → Option α) : Nat → Json → Option (List α)
  | room + 1, array items => items.mapM (f room)
  | _, _ => none

/-- The members of an object as a table; the last of several values for one key counts. -/
def table? {κ α : Type} [BEq κ] (key : String → Option κ) (f : Nat → Json → Option α) :
    Nat → Json → Option (List (κ × α))
  | room + 1, object members => do
    let entries ← members.mapM fun (k, j) => do return (← key (← k), ← f room j)
    return Assoc.insertAll entries []
  | _, _ => none

/-- A node identity as a key: digits without a leading zero. -/
def nodeKey? (s : String) : Option UInt32 :=
  match readNumber s.toList with
  | some (n, []) => uint32? (.number n)
  | _ => none

end Json

open Json (list? table? must may nullable)

def Span.ofJson? : Nat → Json → Option Span
  | _ + 1, j => do
    let [line, col] ← j.slots? ["line", "col"] | none
    return { line := ← must Json.uint32? line, col := ← must Json.uint32? col }
  | 0, _ => none

/-- A node with its position. -/
def Spanned.ofJson? {α : Type} (f : Nat → Json → Option α) : Nat → Json → Option (Spanned α)
  | room + 1, j => do
    let [node, span] ← j.slots? ["node", "span"] | none
    return { node := ← must (f room) node, span := ← may {} (Span.ofJson? room) span }
  | 0, _ => none

mutual

def Ty.ofJson? : Nat → Json → Option Ty
  | 0, _ => none
  | room + 1, j => do
    let (tag, content) ← j.variant?
    match tag with
    | "Con" => return .con (← content.text?)
    | "Var" => return .var (← content.text?)
    | "Tuple" => return .tuple (← Ty.allOfJson? room content)
    | _ => Ty.fieldsOfJson? room tag content

/-- A variant with named fields. -/
def Ty.fieldsOfJson? : Nat → String → Json → Option Ty
  | 0, _, _ => none
  | room + 1, tag, content =>
    match tag with
    | "App" => do
      let [head, args] ← content.slots? ["head", "args"] | none
      return .app (← must (Ty.ofJson? room) head) (← must (Ty.allOfJson? room) args)
    | "Fn" => do
      let [params, ret] ← content.slots? ["params", "ret"] | none
      return .fn (← must (Ty.allOfJson? room) params) (← must (Ty.ofJson? room) ret)
    | _ => none

def Ty.allOfJson? : Nat → Json → Option (List Ty)
  | room + 1, .array items => items.mapM (Ty.ofJson? room)
  | _, _ => none

end

def Literal.ofJson? (room : Nat) (j : Json) : Option Literal :=
  match j.tag? room with
  | some "Unit" => some .unit
  | _ =>
    if room = 0 then none
    else do
      let (tag, content) ← j.variant?
      match tag with
      | "Int" => return .int (← content.int64?)
      | "Float" => return .float (← content.float?)
      | "Bool" => return .bool (← content.bool?)
      | "Char" => return .char (← content.char?)
      | "Str" => return .str (← content.text?)
      | _ => none

def BinOp.ofJson? (room : Nat) (j : Json) : Option BinOp := do
  match ← j.tag? room with
  | "Add" => some .add | "Sub" => some .sub | "Mul" => some .mul | "Div" => some .div
  | "Mod" => some .mod | "Eq" => some .eq | "Ne" => some .ne | "Lt" => some .lt
  | "Gt" => some .gt | "Le" => some .le | "Ge" => some .ge | "And" => some .and
  | "Or" => some .or | _ => none

def UnOp.ofJson? (room : Nat) (j : Json) : Option UnOp := do
  match ← j.tag? room with
  | "Neg" => some .neg
  | "Not" => some .not
  | _ => none

mutual

def Pattern.ofJson? : Nat → Json → Option Pattern
  | 0, j => if j.tag? 0 = some "Wildcard" then some .wildcard else none
  | room + 1, j =>
    if j.tag? (room + 1) = some "Wildcard" then some .wildcard
    else do
      let (tag, content) ← j.variant?
      match tag with
      | "Var" => return .var (← content.text?)
      | "Literal" => return .literal (← Literal.ofJson? room content)
      | "Constructor" => Pattern.constructorOfJson? room content
      | "Tuple" => return .tuple (← Pattern.allOfJson? room content)
      | "Record" => return .record (← Pattern.fieldsOfJson? room content)
      | _ => none

def Pattern.constructorOfJson? : Nat → Json → Option Pattern
  | 0, _ => none
  | room + 1, content => do
    let [name, fields] ← content.slots? ["name", "fields"] | none
    return .constructor (← must Json.text? name) (← must (Pattern.allOfJson? room) fields)

def Pattern.allOfJson? : Nat → Json → Option (List Pattern)
  | room + 1, .array items => items.mapM (Pattern.ofJson? room)
  | _, _ => none

def Pattern.fieldsOfJson? : Nat → Json → Option (List (String × Pattern))
  | room + 1, .array items => items.mapM (Pattern.fieldOfJson? room)
  | _, _ => none

def Pattern.fieldOfJson? : Nat → Json → Option (String × Pattern)
  | room + 1, .array [name, p] => do return (← name.text?, ← Pattern.ofJson? room p)
  | _, _ => none

end

def Constraint.ofJson? : Nat → Json → Option Constraint
  | _ + 1, j => do
    let [typeVar, traitName] ← j.slots? ["type_var", "trait_name"] | none
    return { typeVar := ← must Json.text? typeVar, traitName := ← must Json.text? traitName }
  | 0, _ => none

def WitnessParam.ofJson? : Nat → Json → Option WitnessParam
  | _ + 1, j => do
    let [name, traitName] ← j.slots? ["name", "trait_name"] | none
    return { name := ← must Json.text? name, traitName := ← must Json.text? traitName }
  | 0, _ => none

mutual

def Expr.ofJson? : Nat → Json → Option Expr
  | 0, _ => none
  | room + 1, j => do
    let (tag, content) ← j.variant?
    match tag with
    | "Lit" => return .lit (← Literal.ofJson? room content)
    | "Var" => return .var (← content.text?)
    | "List" => return .list (← Expr.allOfJson? room content)
    | "Tuple" => return .tuple (← Expr.allOfJson? room content)
    | "Record" => return .record (← Expr.fieldsOfJson? room content)
    | "Lambda" => return .lambda (← Func.ofJson? room content)
    | "OperatorRef" => return .operator (← BinOp.ofJson? room content)
    | "Block" => return .block (← Expr.allOfJson? room content)
    | "Try" => return .attempt (← Expr.nodeOfJson? room content)
    | _ => Expr.variantOfJson? room tag content

/-- A variant with named fields. -/
def Expr.variantOfJson? : Nat → String → Json → Option Expr
  | 0, _, _ => none
  | room + 1, tag, content =>
    match tag with
    | "Range" => do
      let [start, stop] ← content.slots? ["start", "end"] | none
      return .range (← must (Expr.nodeOfJson? room) start) (← must (Expr.nodeOfJson? room) stop)
    | "Call" => do
      let [id, callee, args] ← content.slots? ["id", "callee", "args"] | none
      return .call (← must Json.uint32? id) (← must (Expr.nodeOfJson? room) callee)
        (← must (Expr.allOfJson? room) args)
    | "MethodCall" => do
      let [id, receiver, method, args] ← content.slots? ["id", "receiver", "method", "args"] | none
      return .methodCall (← must Json.uint32? id) (← must (Expr.nodeOfJson? room) receiver)
        (← must Json.text? method) (← must (Expr.allOfJson? room) args)
    | "Field" => do
      let [target, field] ← content.slots? ["target", "field"] | none
      return .field (← must (Expr.nodeOfJson? room) target) (← must Json.text? field)
    | "Binary" => do
      let [left, op, right] ← content.slots? ["left", "op", "right"] | none
      return .binary (← must (Expr.nodeOfJson? room) left) (← must (BinOp.ofJson? room) op)
        (← must (Expr.nodeOfJson? room) right)
    | "Unary" => do
      let [op, operand] ← content.slots? ["op", "expr"] | none
      return .unary (← must (UnOp.ofJson? room) op) (← must (Expr.nodeOfJson? room) operand)
    | "Compose" => do
      let [outer, inner] ← content.slots? ["outer", "inner"] | none
      return .compose (← must (Expr.nodeOfJson? room) outer) (← must (Expr.nodeOfJson? room) inner)
    | "If" => do
      let [test, yes, no] ← content.slots? ["cond", "then_branch", "else_branch"] | none
      return .cond (← must (Expr.nodeOfJson? room) test) (← must (Expr.nodeOfJson? room) yes)
        (← must (Expr.nodeOfJson? room) no)
    | "Let" => do
      let [name, ty, value, body] ← content.slots? ["name", "ty", "value", "body"] | none
      return .letIn (← must Json.text? name) (← may none (nullable (Ty.ofJson? room)) ty)
        (← must (Expr.nodeOfJson? room) value) (← must (Expr.nodeOfJson? room) body)
    | "Assign" => do
      let [name, value] ← content.slots? ["name", "value"] | none
      return .assign (← must Json.text? name) (← must (Expr.nodeOfJson? room) value)
    | "Annotated" => do
      let [e, ty] ← content.slots? ["expr", "ty"] | none
      return .annotated (← must (Expr.nodeOfJson? room) e) (← must (Ty.ofJson? room) ty)
    | "Match" => do
      let [scrutinee, arms] ← content.slots? ["expr", "arms"] | none
      return .choose (← must (Expr.nodeOfJson? room) scrutinee) (← must (Arm.allOfJson? room) arms)
    | "Dict" => do
      let [traitName, types] ← content.slots? ["trait_name", "types"] | none
      return .dict (← must Json.text? traitName) (← may [] (Ty.allOfJson? room) types)
    | "Do" => do
      let [binds, body] ← content.slots? ["binds", "body"] | none
      return .doChain (← must (DoBind.allOfJson? room) binds) (← must (Expr.nodeOfJson? room) body)
    | _ => none

/-- An expression with its position. -/
def Expr.nodeOfJson? : Nat → Json → Option (Spanned Expr)
  | 0, _ => none
  | room + 1, j => do
    let [node, span] ← j.slots? ["node", "span"] | none
    return { node := ← must (Expr.ofJson? room) node, span := ← may {} (Span.ofJson? room) span }

def Expr.allOfJson? : Nat → Json → Option (List (Spanned Expr))
  | room + 1, .array items => items.mapM (Expr.nodeOfJson? room)
  | _, _ => none

def Expr.fieldsOfJson? : Nat → Json → Option (List (String × Spanned Expr))
  | room + 1, .array items => items.mapM (Expr.fieldOfJson? room)
  | _, _ => none

def Expr.fieldOfJson? : Nat → Json → Option (String × Spanned Expr)
  | room + 1, .array [name, e] => do return (← name.text?, ← Expr.nodeOfJson? room e)
  | _, _ => none

def Func.ofJson? : Nat → Json → Option Func
  | 0, _ => none
  | room + 1, j => do
    let [name, params, retTy, constraints, witnessParams, body, span] ←
      j.slots? ["name", "params", "ret_ty", "constraints", "witness_params", "body", "span"] | none
    return {
      name := ← must Json.text? name
      params := ← must (Param.allOfJson? room) params
      retTy := ← may none (nullable (Ty.ofJson? room)) retTy
      constraints := ← may [] (list? Constraint.ofJson? room) constraints
      witnessParams := ← may [] (list? WitnessParam.ofJson? room) witnessParams
      body := ← must (Expr.nodeOfJson? room) body
      span := ← may {} (Span.ofJson? room) span }

def Param.ofJson? : Nat → Json → Option Param
  | 0, _ => none
  | room + 1, j => do
    let [name, ty, default, variadic] ← j.slots? ["name", "ty", "default", "variadic"] | none
    return {
      name := ← must Json.text? name
      ty := ← may none (nullable (Ty.ofJson? room)) ty
      default := ← may none (nullable (Expr.nodeOfJson? room)) default
      variadic := ← may false Json.bool? variadic }

def Param.allOfJson? : Nat → Json → Option (List Param)
  | room + 1, .array items => items.mapM (Param.ofJson? room)
  | _, _ => none

def Arm.ofJson? : Nat → Json → Option Arm
  | 0, _ => none
  | room + 1, j => do
    let [pattern, body] ← j.slots? ["pattern", "body"] | none
    return {
      pattern := ← must (Spanned.ofJson? Pattern.ofJson? room) pattern
      body := ← must (Expr.nodeOfJson? room) body }

def Arm.allOfJson? : Nat → Json → Option (List Arm)
  | room + 1, .array items => items.mapM (Arm.ofJson? room)
  | _, _ => none

def DoBind.ofJson? : Nat → Json → Option DoBind
  | 0, _ => none
  | room + 1, j => do
    let [name, value] ← j.slots? ["name", "value"] | none
    return { name := ← must Json.text? name, value := ← must (Expr.nodeOfJson? room) value }

def DoBind.allOfJson? : Nat → Json → Option (List DoBind)
  | room + 1, .array items => items.mapM (DoBind.ofJson? room)
  | _, _ => none

end

def Ctor.ofJson? : Nat → Json → Option Ctor
  | 0, _ => none
  | _ + 1, j => do
    let [name, arity] ← j.slots? ["name", "arity"] | none
    return { name := ← must Json.text? name, arity := ← may 0 Json.count? arity }

def DispatchPos.ofJson? (room : Nat) (j : Json) : Option DispatchPos :=
  if j.tag? room = some "Return" then some .result
  else if room = 0 then none
  else do
    let ("Arg", index) ← j.variant? | none
    return .arg (← index.count?)

def TraitMethod.ofJson? : Nat → Json → Option TraitMethod
  | 0, _ => none
  | room + 1, j => do
    let [name, arity, dispatch] ← j.slots? ["name", "arity", "dispatch"] | none
    return {
      name := ← must Json.text? name
      arity := ← must Json.count? arity
      dispatch := ← may none (nullable (list? DispatchPos.ofJson? room)) dispatch }

def DataDef.ofJson? : Nat → Json → Option DataDef
  | 0, _ => none
  | room + 1, j => do
    let [name, constructors] ← j.slots? ["name", "constructors"] | none
    return {
      name := ← must Json.text? name
      constructors := ← must (list? Ctor.ofJson? room) constructors }

def TraitDef.ofJson? : Nat → Json → Option TraitDef
  | 0, _ => none
  | room + 1, j => do
    let [name, methods] ← j.slots? ["name", "methods"] | none
    return {
      name := ← must Json.text? name
      methods := ← must (list? TraitMethod.ofJson? room) methods }

def InstanceDef.ofJson? : Nat → Json → Option InstanceDef
  | 0, _ => none
  | room + 1, j => do
    let [traitName, types, methods] ← j.slots? ["trait_name", "types", "methods"] | none
    return {
      traitName := ← must Json.text? traitName
      types := ← must (Ty.allOfJson? room) types
      methods := ← must (list? Func.ofJson? room) methods }

def ConstDef.ofJson? : Nat → Json → Option ConstDef
  | 0, _ => none
  | room + 1, j => do
    let [name, ty, value] ← j.slots? ["name", "ty", "value"] | none
    return {
      name := ← must Json.text? name
      ty := ← may none (nullable (Ty.ofJson? room)) ty
      value := ← must (Expr.nodeOfJson? room) value }

def Item.ofJson? : Nat → Json → Option Item
  | 0, _ => none
  | room + 1, j => do
    let (tag, content) ← j.variant?
    match tag with
    | "Fn" => return .func (← Func.ofJson? room content)
    | "Data" => return .data (← DataDef.ofJson? room content)
    | "Trait" => return .traitDecl (← TraitDef.ofJson? room content)
    | "Instance" => return .inst (← InstanceDef.ofJson? room content)
    | "Const" => return .const (← ConstDef.ofJson? room content)
    | _ => none

def Program.ofJson? : Nat → Json → Option Program
  | 0, _ => none
  | room + 1, j => do
    let [file, items] ← j.slots? ["file", "items"] | none
    return { file := ← may "" Json.text? file, items := ← must (list? Item.ofJson? room) items }

def Hints.ofJson? : Nat → Json → Option Hints
  | 0, _ => none
  | room + 1, j => do
    let [nodeTypes, instantiations, aliases, superTraits, methodOrder, traitDefaults] ←
      j.slots? ["node_types", "instantiations", "aliases", "super_traits", "method_order",
        "trait_defaults"] | none
    let names := table? some (list? fun _ => Json.text?)
    return {
      nodeTypes := ← may [] (table? Json.nodeKey? Ty.ofJson? room) nodeTypes
      instantiations :=
        ← may [] (table? Json.nodeKey? (table? some Ty.ofJson?) room) instantiations
      aliases := ← may [] (table? some Ty.ofJson? room) aliases
      superTraits := ← may [] (names room) superTraits
      methodOrder := ← may [] (names room) methodOrder
      traitDefaults := ← may [] (table? some (list? Func.ofJson?) room) traitDefaults }

def AnalyzedProgram.ofJson? : Nat → Json → Option AnalyzedProgram
  | 0, _ => none
  | room + 1, j => do
    let [program, hints] ← j.slots? ["program", "hints"] | none
    return {
      program := ← must (Program.ofJson? room) program
      hints := ← may {} (Hints.ofJson? room) hints }

/-- How many containers of a text may be open at once. -/
def nestingLimit : Nat := 127

/-- Reads an interchange text. -/
def AnalyzedProgram.parse? (text : String) : Option AnalyzedProgram := do
  AnalyzedProgram.ofJson? nestingLimit (← Json.parse? text)

end TraitLang
