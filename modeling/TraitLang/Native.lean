import TraitLang.Machine
import TraitLang.Value.Equality
import TraitLang.Value.Text

/-!
The builtins that every interpreter starts with.
-/
namespace TraitLang

/-- The difference of two integers, or the limit that it lies beyond. -/
def saturatingSub (a b : Int64) : Int64 :=
  if b < 0 ∧ a - b < a then Int64.maxValue
  else if 0 < b ∧ a < a - b then Int64.minValue
  else a - b

/-- Number of integers in `start..stop`, as far as 64 bits go. -/
def rangeLength (start stop : Int64) : Int64 :=
  let n := saturatingSub stop start
  if n < 0 then 0 else n

namespace CoreNative

def joined (args : List Value) : String := " ".intercalate (args.map Value.text)

def shown : List Value → Action
  | [] => .done (.str (Value.text .unit))
  | v :: _ => .done (.str v.text)

def lengthOf : List Value → Action
  | [.list items] => .done (.int (.ofNat items.length))
  | [.tuple items] => .done (.int (.ofNat items.length))
  | [.str s] => .done (.int (.ofNat s.length))
  | [.record fields] => .done (.int (.ofNat fields.length))
  | [.range start stop] => .done (.int (rangeLength start stop))
  | [v] => .error (.typeError "List or String" v.typeName)
  | args => .error (.arityMismatch "length" 1 args.length)

/-- What a builtin does with its arguments. -/
def action : CoreNative → List Value → Action
  | print, args => .write (joined args) (.done .unit)
  | println, args => .write (joined args ++ "\n") (.done .unit)
  | display, args => shown args
  | length, args => lengthOf args
  | fail, [] => .error (.user "failure")
  | fail, v :: _ => .error (.user v.text)
  | errorMessage, .error _ f :: _ => .done (.str f.message)
  | errorMessage, v :: _ => .error (.typeError "Error" v.typeName)
  | errorMessage, [] => .error (.missingArguments "error_message" 1)
  | callDepth, _ => .depths fun calls _ _ => .done (.int (.ofNat calls))
  | witnessDepth, _ => .depths fun _ witnesses _ => .done (.int (.ofNat witnesses))
  | eq, a :: b :: _ => .done (.bool (a == b))
  | neq, a :: b :: _ => .done (.bool (a != b))
  | eq, args => .error (.arityMismatch "Eq.eq" 2 args.length)
  | neq, args => .error (.arityMismatch "Eq.neq" 2 args.length)

/-- The builtins of every interpreter give a result, print or look at the stacks. -/
theorem action_cases (c : CoreNative) (args : List Value) :
    (∃ v, c.action args = .done v) ∨ (∃ cause, c.action args = .error cause) ∨
      (∃ text v, c.action args = .write text (.done v)) ∨
      ∃ next : Nat → Nat → Nat → Value,
        c.action args = .depths fun i j k => .done (next i j k) := by
  have length_cases (args : List Value) :
      (∃ v, lengthOf args = .done v) ∨ ∃ cause, lengthOf args = .error cause := by
    unfold lengthOf
    split
    iterate 5 exact .inl ⟨_, rfl⟩
    iterate 2 exact .inr ⟨_, rfl⟩
  cases c with
  | print | println => exact .inr (.inr (.inl ⟨_, _, rfl⟩))
  | callDepth | witnessDepth => exact .inr (.inr (.inr ⟨_, rfl⟩))
  | length => exact (length_cases args).imp id .inl
  | display => cases args <;> exact .inl ⟨_, rfl⟩
  | fail => cases args <;> exact .inr (.inl ⟨_, rfl⟩)
  | errorMessage =>
    rcases args with _ | ⟨v, rest⟩
    · exact .inr (.inl ⟨_, rfl⟩)
    · cases v with
      | error id f => exact .inl ⟨_, rfl⟩
      | _ => exact .inr (.inl ⟨_, rfl⟩)
  | eq | neq =>
    rcases args with _ | ⟨v, _ | ⟨w, rest⟩⟩
    · exact .inr (.inl ⟨_, rfl⟩)
    · exact .inr (.inl ⟨_, rfl⟩)
    · exact .inl ⟨_, rfl⟩

private def anything : Ty := .var "a"

/-- The functions bound in the global scope, in their order: name, native, type and defaults. -/
def globals : List (String × CoreNative × Option Ty × List Value) := [
  ("print", print, none, []),
  ("println", println, none, []),
  ("show", display, some (.fn [anything] (.con "String")), []),
  ("length", length, some (.fn [anything] (.con "Int")), []),
  ("fail", fail, some (.fn [.con "String"] anything), [.str "failure"]),
  ("error_message", errorMessage, some (.fn [.con "Error"] (.con "String")), []),
  ("call_depth", callDepth, some (.fn [] (.con "Int")), []),
  ("witness_depth", witnessDepth, some (.fn [] (.con "Int")), [])]

/-- Defaults of trait methods: trait, method, native and type. -/
def traitDefaults : List (String × String × CoreNative × Ty) := [
  ("Show", "show", display, .fn [anything] (.con "String")),
  ("Eq", "eq", eq, .fn [anything, anything] (.con "Bool")),
  ("Eq", "neq", neq, .fn [anything, anything] (.con "Bool"))]

end CoreNative

end TraitLang
