import TraitLang.Value.Equality

/-!
Operators. Integers wrap around at 64 bits, and an integer next to a float is taken as a float.
-/
namespace TraitLang

/-- A failure that names the types of both operands. -/
def operandError (expected : String) (op : BinOp) (left right : Value) :
    Except Cause Value :=
  .error (.typeError expected (left.typeName ++ " " ++ op.text ++ " " ++ right.typeName))

def arithmetic (op : BinOp) (onInts : Int64 → Int64 → Except Cause Value)
    (onFloats : Float → Float → Float) : Value → Value → Except Cause Value
  | .int a, .int b => onInts a b
  | .float a, .float b => .ok (.float (onFloats a b))
  | .int a, .float b => .ok (.float (onFloats a.toFloat b))
  | .float a, .int b => .ok (.float (onFloats a b.toFloat))
  | left, right => operandError "numeric" op left right

/-- The order of two floats, unless one is not a number. -/
def compareFloats (a b : Float) : Option Ordering :=
  if a < b then some .lt else if a == b then some .eq else if b < a then some .gt else none

def Value.compare (left right : Value) : Except Cause Ordering :=
  let order : Option Ordering := match left, right with
    | .int a, .int b => some (Ord.compare a b)
    | .float a, .float b => compareFloats a b
    | .int a, .float b => compareFloats a.toFloat b
    | .float a, .int b => compareFloats a b.toFloat
    | .str a, .str b => some (Ord.compare a b)
    | .char a, .char b => some (Ord.compare a b)
    | _, _ => none
  match order with
  | some o => .ok o
  | none => .error (.typeError "comparable values" (left.typeName ++ " and " ++ right.typeName))

def BinOp.eval (op : BinOp) (left right : Value) : Except Cause Value :=
  match op with
  | .add =>
    match left, right with
    | .str a, .str b => .ok (.str (a ++ b))
    | .list a, .list b => .ok (.list (a ++ b))
    | .int a, .int b => .ok (.int (a + b))
    | .float a, .float b => .ok (.float (a + b))
    | .int a, .float b => .ok (.float (a.toFloat + b))
    | .float a, .int b => .ok (.float (a + b.toFloat))
    | _, _ => operandError "numeric, String or List" op left right
  | .sub => arithmetic op (fun a b => .ok (.int (a - b))) (· - ·) left right
  | .mul => arithmetic op (fun a b => .ok (.int (a * b))) (· * ·) left right
  | .div =>
    arithmetic op (fun a b => if b = 0 then .error .divisionByZero else .ok (.int (a / b)))
      (· / ·) left right
  | .mod =>
    match left, right with
    | .int a, .int b => if b = 0 then .error .divisionByZero else .ok (.int (a % b))
    | _, _ => .error (.typeError "Int" left.typeName)
  | .eq => .ok (.bool (left == right))
  | .ne => .ok (.bool (left != right))
  | .lt => (left.compare right).map fun o => .bool (o == .lt)
  | .gt => (left.compare right).map fun o => .bool (o == .gt)
  | .le => (left.compare right).map fun o => .bool (o != .gt)
  | .ge => (left.compare right).map fun o => .bool (o != .lt)
  | .and =>
    match left, right with
    | .bool a, .bool b => .ok (.bool (a && b))
    | _, _ => operandError "Bool" op left right
  | .or =>
    match left, right with
    | .bool a, .bool b => .ok (.bool (a || b))
    | _, _ => operandError "Bool" op left right

def Value.upTo (start stop : Value) : Except Cause Value :=
  match start, stop with
  | .int a, .int b => .ok (.range a b)
  | a, b => .error (.typeError "Int..Int" (a.typeName ++ ".." ++ b.typeName))

def UnOp.eval : UnOp → Value → Except Cause Value
  | .neg, .int n => .ok (.int (-n))
  | .neg, .float x => .ok (.float (-x))
  | .not, .bool b => .ok (.bool (!b))
  | .neg, v => .error (.typeError "numeric" v.typeName)
  | .not, v => .error (.typeError "Bool" v.typeName)

end TraitLang
