import TraitLang.Text.Lowercase

/-!
Types as far as dispatch needs them: constructor names, variables and applications. Substitution
replaces variables; an application whose head turns out to be an application itself keeps the
innermost head and the outer arguments.
-/
namespace TraitLang

inductive Ty where
  | con (name : String)
  | var (name : String)
  /-- an application: `Option<Int>` -/
  | app (head : Ty) (args : List Ty)
  | fn (params : List Ty) (ret : Ty)
  | tuple (elems : List Ty)
deriving Inhabited

namespace Ty

mutual

def same : Ty → Ty → Bool
  | con a, con b => a == b
  | var a, var b => a == b
  | app h as, app k bs => same h k && sameAll as bs
  | fn as r, fn bs s => sameAll as bs && same r s
  | tuple as, tuple bs => sameAll as bs
  | _, _ => false

def sameAll : List Ty → List Ty → Bool
  | [], [] => true
  | a :: as, b :: bs => same a b && sameAll as bs
  | _, _ => false

end

mutual

theorem eq_of_same : ∀ {a b : Ty}, same a b = true → a = b
  | con _, b, h => by cases b <;> simp_all [same]
  | var _, b, h => by cases b <;> simp_all [same]
  | app _ _, b, h => by
    cases b <;> simp only [same, Bool.and_eq_true, Bool.false_eq_true] at h
    rw [eq_of_same h.1, eq_of_sameAll h.2]
  | fn _ _, b, h => by
    cases b <;> simp only [same, Bool.and_eq_true, Bool.false_eq_true] at h
    rw [eq_of_sameAll h.1, eq_of_same h.2]
  | tuple _, b, h => by
    cases b <;> simp only [same, Bool.false_eq_true] at h
    rw [eq_of_sameAll h]

theorem eq_of_sameAll : ∀ {as bs : List Ty}, sameAll as bs = true → as = bs
  | [], bs, h => by cases bs <;> simp_all [sameAll]
  | a :: as, bs, h => by
    cases bs <;> simp only [sameAll, Bool.and_eq_true, Bool.false_eq_true] at h
    rw [eq_of_same h.1, eq_of_sameAll h.2]

end

mutual

theorem same_refl : ∀ a : Ty, same a a = true
  | con _ => by simp [same]
  | var _ => by simp [same]
  | app h as => by simp [same, same_refl h, sameAll_refl as]
  | fn as r => by simp [same, same_refl r, sameAll_refl as]
  | tuple as => by simp [same, sameAll_refl as]

theorem sameAll_refl : ∀ as : List Ty, sameAll as as = true
  | [] => rfl
  | a :: as => by simp [sameAll, same_refl a, sameAll_refl as]

end

instance : DecidableEq Ty := fun a b =>
  decidable_of_iff (same a b = true) ⟨eq_of_same, fun h => h ▸ same_refl a⟩

/-- Name of the outermost constructor, unless a variable stands there. -/
def constructorName : Ty → Option String
  | con name => some name
  | var _ => none
  | app head _ => head.constructorName
  | fn _ _ => some "Function"
  | tuple _ => some "Tuple"

def hasVarHead : Ty → Bool
  | var _ => true
  | app head _ => head.hasVarHead
  | _ => false

/-- The variable at the head: `f` for `f<b>`. -/
def headVariable : Ty → Option String
  | var name => some name
  | app head _ => head.headVariable
  | _ => none

/-- Arguments of an applied type, components of a tuple. -/
def typeArgs : Ty → List Ty
  | app _ args => args
  | tuple elems => elems
  | _ => []

def fnParams : Ty → Option (List Ty)
  | fn params _ => some params
  | _ => none

/-- Applies `head` to `args`; the arguments of a head that is applied already are dropped. -/
def applied : Ty → List Ty → Ty
  | app inner _, args => app inner args
  | head, args => app head args

mutual

/-- Replaces variables; those that `lookup` does not bind stay. -/
def substitute (lookup : String → Option Ty) : Ty → Ty
  | con name => con name
  | var name => (lookup name).getD (var name)
  | app head args => applied (head.substitute lookup) (substituteAll lookup args)
  | fn params ret => fn (substituteAll lookup params) (ret.substitute lookup)
  | tuple elems => tuple (substituteAll lookup elems)

def substituteAll (lookup : String → Option Ty) : List Ty → List Ty
  | [] => []
  | t :: ts => t.substitute lookup :: substituteAll lookup ts

end

@[simp] theorem substituteAll_eq_map (lookup : String → Option Ty) (ts : List Ty) :
    substituteAll lookup ts = ts.map (substitute lookup) := by
  induction ts with
  | nil => rfl
  | cons t ts ih => simp [substituteAll, ih]

mutual

def text : Ty → String
  | con name => name
  | var name => name
  | app head args => head.text ++ "<" ++ textAll args ++ ">"
  | fn params ret => "(" ++ textAll params ++ ") -> " ++ ret.text
  | tuple elems => "(" ++ textAll elems ++ ")"

def textAll : List Ty → String
  | [] => ""
  | [t] => t.text
  | t :: u :: ts => t.text ++ ", " ++ textAll (u :: ts)

end

/-- A head is known exactly if no variable stands there. -/
theorem constructorName_isSome : ∀ t : Ty, t.constructorName.isSome = !t.hasVarHead
  | con _ | var _ | fn _ _ | tuple _ => rfl
  | app head _ => constructorName_isSome head

end Ty

/-- Names that start with a lowercase character are type variables. -/
def isTypeVariableName (name : String) : Bool :=
  match name.toList with
  | [] => false
  | c :: _ => Text.isLowercase c

end TraitLang
