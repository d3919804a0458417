import TraitLang.Assoc
import TraitLang.Stack
import TraitLang.Tree.Ty

/-!
Evidence about types that is in force while a call runs: frames that give each key (a trait, a type
variable or the expected result) one type. Inner frames hide outer ones.
-/
namespace TraitLang

/-- The key of the type that the current call is expected to produce. -/
def resultKey : String := "$result"

structure WitnessFrame where
  entries : List (String × Ty) := []
  /-- no key has two types -/
  nodup : (Assoc.keys entries).Nodup := by exact List.nodup_nil
deriving DecidableEq

instance : Inhabited WitnessFrame := ⟨{}⟩

namespace WitnessFrame

def single (key : String) (ty : Ty) : WitnessFrame :=
  ⟨[(key, ty)], Assoc.nodup_keys_singleton key ty⟩

def insert (f : WitnessFrame) (key : String) (ty : Ty) : WitnessFrame :=
  ⟨Assoc.insert key ty f.entries, Assoc.nodup_keys_insert f.nodup key ty⟩

def get? (f : WitnessFrame) (key : String) : Option Ty := f.entries.lookup key

def size (f : WitnessFrame) : Nat := f.entries.length

def isEmpty (f : WitnessFrame) : Bool := f.entries.isEmpty

/-- The entries of `inner` on top of those of `outer`. -/
def merge (outer inner : WitnessFrame) : WitnessFrame :=
  ⟨Assoc.insertAll inner.entries outer.entries,
    Assoc.nodup_keys_insertAll inner.entries outer.nodup⟩

end WitnessFrame

abbrev WitnessStack := Stack WitnessFrame

namespace WitnessStack

/-- Innermost evidence for a key. -/
def lookup (s : WitnessStack) (key : String) : Option Ty :=
  s.toList.reverse.findSome? fun f => f.get? key

/-- All evidence in one frame, nothing if there is none. -/
def merged (s : WitnessStack) : Option WitnessFrame :=
  if s.toList.all WitnessFrame.isEmpty then none
  else some (s.toList.foldl WitnessFrame.merge {})

end WitnessStack

end TraitLang
