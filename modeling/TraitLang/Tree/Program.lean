import TraitLang.Tree.Expr

/-!
Programs: top-level items, together with what a static analyser found out about them.
-/
namespace TraitLang

/-- A data constructor with the number of its fields. -/
structure Ctor where
  name : String
  arity : Nat
deriving DecidableEq, Repr, Inhabited

structure DataDef where
  name : String
  constructors : List Ctor
deriving Inhabited

/-- Where the type that a trait method dispatches on shows up. -/
inductive DispatchPos where
  | arg (index : Nat)
  | result
deriving DecidableEq, Repr, Inhabited

/-- The signature of a method inside a trait. -/
structure TraitMethod where
  name : String
  arity : Nat
  dispatch : Option (List DispatchPos)
deriving DecidableEq, Inhabited

structure TraitDef where
  name : String
  methods : List TraitMethod
deriving Inhabited

structure InstanceDef where
  traitName : String
  types : List Ty
  methods : List Func
deriving Inhabited

structure ConstDef where
  name : String
  ty : Option Ty
  value : Spanned Expr
deriving Inhabited

inductive Item where
  | func (f : Func)
  | data (d : DataDef)
  | traitDecl (t : TraitDef)
  | inst (i : InstanceDef)
  | const (c : ConstDef)
deriving Inhabited

structure Program where
  /-- the source file that call frames name -/
  file : String
  items : List Item
deriving Inhabited

/-- What the analyser knows. Every table is keyed by the first component; the later of two entries
with one key counts. -/
structure Hints where
  /-- inferred type of a call node -/
  nodeTypes : List (NodeId × Ty) := []
  /-- type variables fixed at a call node -/
  instantiations : List (NodeId × List (String × Ty)) := []
  aliases : List (String × Ty) := []
  superTraits : List (String × List String) := []
  /-- methods of a trait in the order of its dictionaries -/
  methodOrder : List (String × List String) := []
  traitDefaults : List (String × List Func) := []
deriving Inhabited

structure AnalyzedProgram where
  program : Program
  hints : Hints := {}
deriving Inhabited

end TraitLang
