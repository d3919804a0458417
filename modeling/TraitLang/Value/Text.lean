import TraitLang.Decimal.Layout
import TraitLang.Text.Quoted
import TraitLang.Value.Basic

/-!
How values are shown to users, and how callables and foreign values appear in logs.
-/
namespace TraitLang

namespace Value

mutual

/-- Inside a container strings and characters are quoted. -/
def textIn (nested : Bool) : Value → String
  | unit => "()"
  | int n => toString n.toInt
  | float x => Text.floatText x
  | bool b => if b then "true" else "false"
  | char c => if nested then Text.quotedChar c else c.toString
  | str s => if nested then Text.quoted s else s
  | list items => "[" ++ textAll items ++ "]"
  | tuple items => "(" ++ textAll items ++ ")"
  | record fields => "\x7b" ++ textFields fields ++ " \x7d"
  | data _ ctor [] => ctor
  | data _ ctor (f :: fs) => ctor ++ "(" ++ textAll (f :: fs) ++ ")"
  | range start stop => toString start.toInt ++ ".." ++ toString stop.toInt
  | error _ fault => "<error: " ++ fault.message ++ ">"
  | typeRep t => t.text
  | host type _ => "<host " ++ type ++ ">"
  | function _ c => "<function " ++ c.func.name ++ ">"
  | builtin b => "<builtin " ++ b.name ++ ">"
  | partialApp _ callee _ remaining =>
    "<partial " ++ textIn false callee ++ " awaiting " ++ toString remaining ++ ">"
  | constructor _ _ name _ => "<constructor " ++ name ++ ">"
  | method _ m => "<method " ++ m.traitName ++ "." ++ m.method ++ ">"
  | dictionary d =>
    "<dictionary " ++ d.traitName ++ (d.key.elim "" fun k => " " ++ k.text) ++ ">"
  | bound _ m _ => "<bound " ++ textIn false m ++ ">"
  | operator op => "(" ++ op.text ++ ")"
  | composed _ outer inner => "<" ++ textIn false outer ++ " . " ++ textIn false inner ++ ">"

def textAll : List Value → String
  | [] => ""
  | [v] => textIn true v
  | v :: w :: rest => textIn true v ++ ", " ++ textAll (w :: rest)

def textFields : List (String × Value) → String
  | [] => ""
  | [(k, v)] => " " ++ k ++ ": " ++ textIn true v
  | (k, v) :: f :: rest => " " ++ k ++ ": " ++ textIn true v ++ "," ++ textFields (f :: rest)

end

/-- What a user sees. -/
def text (v : Value) : String := v.textIn false

end Value

mutual

/-- A type with its constructors spelled out. -/
def Ty.inspect : Ty → String
  | .con name => "Con(" ++ Text.quoted name ++ ")"
  | .var name => "Var(" ++ Text.quoted name ++ ")"
  | .app head args =>
    "App \x7b head: " ++ head.inspect ++ ", args: [" ++ Ty.inspectAll args ++ "] \x7d"
  | .fn params ret =>
    "Fn \x7b params: [" ++ Ty.inspectAll params ++ "], ret: " ++ ret.inspect ++ " \x7d"
  | .tuple elems => "Tuple([" ++ Ty.inspectAll elems ++ "])"

def Ty.inspectAll : List Ty → String
  | [] => ""
  | [t] => t.inspect
  | t :: u :: ts => t.inspect ++ ", " ++ Ty.inspectAll (u :: ts)

end

namespace Value

private def inspectOption {α : Type} (f : α → String) : Option α → String
  | none => "None"
  | some a => "Some(" ++ f a ++ ")"

/-- How logs describe a function, a builtin or a foreign value. -/
def inspect? : Value → Option String
  | host type _ => some ("HostValue(" ++ type ++ ")")
  | function _ c =>
    some ("Closure \x7b name: " ++ Text.quoted c.func.name ++ ", params: " ++
      toString c.func.params.length ++ ", owner_trait: " ++ inspectOption Text.quoted c.owner ++
      ", .. \x7d")
  | builtin b =>
    some ("Builtin \x7b name: " ++ Text.quoted b.name ++ ", signature: " ++
      inspectOption Ty.inspect b.signature ++ ", .. \x7d")
  | _ => none

end Value

end TraitLang
