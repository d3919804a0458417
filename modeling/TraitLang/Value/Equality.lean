import TraitLang.Value.Basic

/-!
Equality of values. Data is compared by structure, records without regard to the order of their
fields; whatever has an identity is compared by it.
-/
namespace TraitLang

/-- What is told apart by an identity. -/
inductive IdentityKind where
  | error | host | function | builtin | partialApp | constructor | method | dictionary | bound
  | composed
deriving DecidableEq, Repr

/-- What a value without parts is compared by. -/
inductive Scalar where
  | unit
  | int (n : Int64)
  | float (x : Float)
  | bool (b : Bool)
  | char (c : Char)
  | str (s : String)
  | range (start stop : Int64)
  | typeRep (t : Ty)
  | operator (op : BinOp)
  | identity (kind : IdentityKind) (id : Ident)
deriving BEq

namespace Value

def scalar? : Value → Option Scalar
  | unit => some .unit
  | int n => some (.int n)
  | float x => some (.float x)
  | bool b => some (.bool b)
  | char c => some (.char c)
  | str s => some (.str s)
  | range start stop => some (.range start stop)
  | typeRep t => some (.typeRep t)
  | operator op => some (.operator op)
  | error id _ => some (.identity .error id)
  | host _ id => some (.identity .host id)
  | function id _ => some (.identity .function id)
  | builtin b => some (.identity .builtin b.id)
  | partialApp id _ _ _ => some (.identity .partialApp id)
  | constructor id _ _ _ => some (.identity .constructor id)
  | method id _ => some (.identity .method id)
  | dictionary d => some (.identity .dictionary d.id)
  | bound id _ _ => some (.identity .bound id)
  | composed id _ _ => some (.identity .composed id)
  | list _ | tuple _ | record _ | data _ _ _ => none

/-- Both values are without parts and compare equal. -/
def scalarEqual (v w : Value) : Bool :=
  match v.scalar?, w.scalar? with
  | some a, some b => a == b
  | _, _ => false

mutual

def equal : Value → Value → Bool
  | list as, list bs => equalAll as bs
  | tuple as, tuple bs => equalAll as bs
  | record as, record bs => as.length == bs.length && equalFields as bs
  | data t c as, data u d bs => t == u && c == d && equalAll as bs
  | v, w => scalarEqual v w

def equalAll : List Value → List Value → Bool
  | [], [] => true
  | a :: as, b :: bs => equal a b && equalAll as bs
  | _, _ => false

/-- Each field of the first record has an equal one in the second. -/
def equalFields : List (String × Value) → List (String × Value) → Bool
  | [], _ => true
  | (k, a) :: as, bs => ((bs.lookup k).any fun b => equal a b) && equalFields as bs

end

instance : BEq Value := ⟨equal⟩

end Value

end TraitLang
