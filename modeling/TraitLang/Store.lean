import TraitLang.Assoc
import TraitLang.Value.Basic

/-!
The store of scopes. A scope binds names, in the order of their definition, and may have a parent
made before it; a name refers to the innermost scope of the chain that binds it.
-/
namespace TraitLang

structure Scope where
  parent : Option ScopeId := none
  bindings : List (String × Value) := []
deriving Inhabited

structure Store where
  scopes : Array Scope := #[]
deriving Inhabited

namespace Store

/-- The scope of global names. -/
def global : ScopeId := 0

/-- A store with an empty global scope. -/
def fresh : Store := ⟨#[{}]⟩

/-- Adds an empty scope below `parent`. -/
def child (s : Store) (parent : ScopeId) : Store × ScopeId :=
  let id := s.scopes.size
  (⟨s.scopes.push { parent := some parent }⟩, id)

def parent? (s : Store) (id : ScopeId) : Option ScopeId := s.scopes[id]?.bind Scope.parent

/-- Names bound in the scope itself. -/
def localNames (s : Store) (id : ScopeId) : List String :=
  match s.scopes[id]? with
  | some scope => Assoc.keys scope.bindings
  | none => []

/-- Binds a name in the scope itself. -/
def define (s : Store) (id : ScopeId) (name : String) (v : Value) : Store :=
  ⟨s.scopes.modify id fun scope =>
    { scope with bindings := Assoc.insert name v scope.bindings }⟩

/-! ### Walks up the chain

A parent is older than its child, so the number of a scope bounds the length of its chain. -/

def getFrom (s : Store) (name : String) : Nat → ScopeId → Option Value
  | 0, _ => none
  | fuel + 1, id =>
    match s.scopes[id]? with
    | none => none
    | some scope => scope.bindings.lookup name <|> scope.parent.bind (getFrom s name fuel)

def setFrom (s : Store) (name : String) (v : Value) : Nat → ScopeId → Option Store
  | 0, _ => none
  | fuel + 1, id =>
    match s.scopes[id]? with
    | none => none
    | some scope =>
      if Assoc.contains name scope.bindings then some (s.define id name v)
      else scope.parent.bind (setFrom s name v fuel)

def containsFrom (s : Store) (name : String) : Nat → ScopeId → Bool
  | 0, _ => false
  | fuel + 1, id =>
    match s.scopes[id]? with
    | none => false
    | some scope =>
      Assoc.contains name scope.bindings || scope.parent.any (containsFrom s name fuel)

/-- The value of a name in the innermost scope that binds it. -/
def get? (s : Store) (id : ScopeId) (name : String) : Option Value := s.getFrom name (id + 1) id

/-- Gives a bound name a new value where it is bound. -/
def set? (s : Store) (id : ScopeId) (name : String) (v : Value) : Option Store :=
  s.setFrom name v (id + 1) id

def contains (s : Store) (id : ScopeId) (name : String) : Bool := s.containsFrom name (id + 1) id

/-! ### The scope where a walk ends -/

def ownerFrom (s : Store) (name : String) : Nat → ScopeId → Option ScopeId
  | 0, _ => none
  | fuel + 1, id =>
    match s.scopes[id]? with
    | none => none
    | some scope =>
      if Assoc.contains name scope.bindings then some id
      else scope.parent.bind (ownerFrom s name fuel)

/-- The innermost scope that binds the name. -/
def owner? (s : Store) (id : ScopeId) (name : String) : Option ScopeId :=
  s.ownerFrom name (id + 1) id

/-- Value of the name in the scope itself. -/
def binding? (s : Store) (id : ScopeId) (name : String) : Option Value :=
  s.scopes[id]?.bind fun scope => scope.bindings.lookup name

theorem getFrom_eq (s : Store) (name : String) (fuel : Nat) (id : ScopeId) :
    s.getFrom name fuel id = (s.ownerFrom name fuel id).bind (s.binding? · name) := by
  induction fuel generalizing id with
  | zero => rfl
  | succ fuel ih =>
    rw [getFrom, ownerFrom]
    cases hscope : s.scopes[id]? with
    | none => rfl
    | some scope =>
      cases hv : scope.bindings.lookup name with
      | some v => simp [Assoc.contains, hv, binding?, hscope]
      | none => simp [Assoc.contains, hv, funext ih, Option.bind_assoc]

theorem setFrom_eq (s : Store) (name : String) (v : Value) (fuel : Nat) (id : ScopeId) :
    s.setFrom name v fuel id = (s.ownerFrom name fuel id).map (s.define · name v) := by
  induction fuel generalizing id with
  | zero => rfl
  | succ fuel ih =>
    rw [setFrom, ownerFrom]
    cases s.scopes[id]? with
    | none => rfl
    | some scope =>
      by_cases hv : Assoc.contains name scope.bindings
      · simp [hv]
      · simp only [hv, Bool.false_eq_true, if_false, funext ih, Option.map_bind]
        rfl

theorem containsFrom_eq (s : Store) (name : String) (fuel : Nat) (id : ScopeId) :
    s.containsFrom name fuel id = (s.ownerFrom name fuel id).isSome := by
  induction fuel generalizing id with
  | zero => rfl
  | succ fuel ih =>
    rw [containsFrom, ownerFrom]
    cases s.scopes[id]? with
    | none => rfl
    | some scope =>
      cases hv : Assoc.contains name scope.bindings with
      | true => simp [hv]
      | false => cases hparent : scope.parent <;> simp [hv, hparent, ih]

theorem get?_eq_owner? (s : Store) (id : ScopeId) (name : String) :
    s.get? id name = (s.owner? id name).bind (s.binding? · name) :=
  s.getFrom_eq name (id + 1) id

theorem set?_eq_owner? (s : Store) (id : ScopeId) (name : String) (v : Value) :
    s.set? id name v = (s.owner? id name).map (s.define · name v) :=
  s.setFrom_eq name v (id + 1) id

theorem contains_eq_owner? (s : Store) (id : ScopeId) (name : String) :
    s.contains id name = (s.owner? id name).isSome :=
  s.containsFrom_eq name (id + 1) id

theorem getElem?_child_of_lt {s : Store} {id : ScopeId} (parent : ScopeId)
    (h : id < s.scopes.size) : (s.child parent).1.scopes[id]? = s.scopes[id]? := by
  simp [child, Array.getElem?_push, Nat.ne_of_lt h]

theorem getElem?_define_of_ne {s : Store} {scope id : ScopeId} (hne : scope ≠ id) (name : String)
    (v : Value) : (s.define scope name v).scopes[id]? = s.scopes[id]? := by
  simp [define, Array.getElem?_modify, hne]

end Store

end TraitLang
