import TraitLang.Fault
import TraitLang.Tree.Program
import TraitLang.Witness

/-!
Values of a running program. Callables, dictionaries, errors and foreign values carry an identity
and are told apart by it; all else is data.
-/
namespace TraitLang

/-- Identity of a callable, a dictionary, an error or a foreign value. -/
abbrev Ident := Nat

abbrev ScopeId := Nat

/-- An instance key: one type constructor name for each parameter of the trait. -/
structure TypeKey where
  parts : List String
deriving DecidableEq, Repr, Inhabited

namespace TypeKey

def single (name : String) : TypeKey := ⟨[name]⟩

/-- Key of declared instance types. Variables keep their name, so that they can match anything. -/
def ofTypes (types : List Ty) : TypeKey :=
  ⟨types.map fun
    | .var name => name
    | t => t.constructorName.getD "?"⟩

def size (k : TypeKey) : Nat := k.parts.length

def text (k : TypeKey) : String := ", ".intercalate k.parts

end TypeKey

structure Closure where
  func : Func
  scope : ScopeId
  /-- evidence in force when the closure was made -/
  witnesses : Option WitnessFrame := none
  /-- the trait whose instance or default this is -/
  owner : Option String := none
deriving Inhabited

/-- A trait method that is not resolved yet. -/
structure ClassMethod where
  traitName : String
  method : String
  arity : Nat
  dispatch : Option (List DispatchPos) := none
deriving DecidableEq, Inhabited

/-- The builtins that every interpreter starts with. -/
inductive CoreNative where
  | print | println | display | length | fail | errorMessage | callDepth | witnessDepth | eq | neq
deriving DecidableEq, Repr, Inhabited

inductive Native where
  | core (c : CoreNative)
  /-- runs on a do chain with the given name bound to the argument -/
  | resume (name : String) (rest : List DoBind) (body : Spanned Expr) (scope : ScopeId)
  | host (name : String)
deriving Inhabited

mutual

inductive Value where
  | unit
  | int (n : Int64)
  | float (x : Float)
  | bool (b : Bool)
  | char (c : Char)
  | str (s : String)
  | list (items : List Value)
  | tuple (items : List Value)
  | record (fields : List (String × Value))
  /-- an instance of a user data type: `Some(1)` -/
  | data (type ctor : String) (fields : List Value)
  /-- the integers from `start` up to, but without, `stop` -/
  | range (start stop : Int64)
  | error (id : Ident) (fault : Fault)
  | typeRep (t : Ty)
  /-- a foreign value, opaque to programs -/
  | host (type : String) (handle : Ident)
  | function (id : Ident) (closure : Closure)
  | builtin (b : Builtin)
  /-- a callable with its first arguments, short of `remaining` more -/
  | partialApp (id : Ident) (callee : Value) (args : List Value) (remaining : Nat)
  | constructor (id : Ident) (type name : String) (arity : Nat)
  | method (id : Ident) (m : ClassMethod)
  | dictionary (d : Dictionary)
  /-- a callable with the receiver that goes before its arguments -/
  | bound (id : Ident) (method receiver : Value)
  | operator (op : BinOp)
  | composed (id : Ident) (outer inner : Value)

structure Dictionary where
  id : Ident
  traitName : String
  key : Option TypeKey
  /-- in the method order of the trait -/
  methods : List Value
  supers : List Dictionary

structure Builtin where
  id : Ident
  name : String
  native : Native
  /-- declared function type; without one any arguments do -/
  signature : Option Ty
  /-- values for the last parameters when they are left out -/
  defaults : List Value

end

instance : Inhabited Value := ⟨.unit⟩
instance : Inhabited Dictionary := ⟨⟨0, "", none, [], []⟩⟩

namespace Builtin

def arity (b : Builtin) : Option Nat :=
  b.signature.bind fun t => t.fnParams.map List.length

def required (b : Builtin) : Option Nat :=
  b.arity.map fun n => n - b.defaults.length

end Builtin

namespace Dictionary

/-- A dictionary that stands for missing evidence. -/
def placeholder (id : Ident) (traitName : String) : Dictionary := ⟨id, traitName, none, [], []⟩

def isPlaceholder (d : Dictionary) : Bool :=
  d.key.isNone && d.methods.isEmpty && d.supers.isEmpty

mutual

/-- Searches the dictionaries of super-traits, depth first. -/
def findSuper (traitName : String) : Dictionary → Option Dictionary
  | ⟨_, _, _, _, supers⟩ => findIn traitName supers

def findIn (traitName : String) : List Dictionary → Option Dictionary
  | [] => none
  | d :: ds =>
    if d.traitName = traitName then some d
    else match findSuper traitName d with
      | some found => some found
      | none => findIn traitName ds

end

end Dictionary

namespace Value

/-- Type name at run time, as it stands in instance keys. -/
def typeName : Value → String
  | unit => "Unit"
  | int _ => "Int"
  | float _ => "Float"
  | bool _ => "Bool"
  | char _ => "Char"
  | str _ => "String"
  | list _ => "List"
  | tuple _ => "Tuple"
  | record _ => "Record"
  | data type _ _ => type
  | range _ _ => "Range"
  | error _ _ => "Error"
  | typeRep _ => "Type"
  | host type _ => type
  | dictionary _ => "Dictionary"
  | function _ _ | builtin _ | partialApp _ _ _ _ | constructor _ _ _ _ | method _ _ | bound _ _ _
  | operator _ | composed _ _ _ => "Function"

def isCallable : Value → Bool
  | function _ _ | builtin _ | partialApp _ _ _ _ | constructor _ _ _ _ | method _ _ | bound _ _ _
  | operator _ | composed _ _ _ => true
  | _ => false

def isDictionary : Value → Bool
  | dictionary _ => true
  | _ => false

def type? : Value → Option Ty
  | typeRep t => some t
  | _ => none

def callableName : Value → String
  | function _ c => c.func.name
  | builtin b => b.name
  | constructor _ _ name _ => name
  | method _ m => m.method
  | partialApp _ callee _ _ => callee.callableName
  | bound _ m _ => m.callableName
  | operator op => "(" ++ op.text ++ ")"
  | composed _ _ _ => "<composed>"
  | v => "<" ++ v.typeName ++ ">"

def ofLiteral : Literal → Value
  | .int n => int n
  | .float x => float x
  | .bool b => bool b
  | .char c => char c
  | .str s => str s
  | .unit => unit

end Value

/-- The arguments after any dictionaries in front. -/
def plainArgs (args : List Value) : List Value := args.dropWhile Value.isDictionary

def leadingDictionaries : List Value → List Dictionary
  | .dictionary d :: rest => d :: leadingDictionaries rest
  | _ => []

end TraitLang
