/-!
Last-in first-out stacks with marks: whoever pushes an entry remembers the depth before it and
later cuts the stack back to that depth, however the work in between ended.
-/
namespace TraitLang

structure Stack (α : Type) where
  /-- entries, bottom to top -/
  entries : Array α := #[]
deriving Inhabited

namespace Stack

variable {α : Type}

def depth (s : Stack α) : Nat := s.entries.size

def toList (s : Stack α) : List α := s.entries.toList

def push (s : Stack α) (a : α) : Stack α := ⟨s.entries.push a⟩

def top? (s : Stack α) : Option α := s.entries.back?

/-- Drops entries until at most `depth` are left. -/
def cut (s : Stack α) (depth : Nat) : Stack α := ⟨s.entries.shrink depth⟩

/-- Overwrites the top entry. -/
def replaceTop (s : Stack α) (a : α) : Stack α :=
  ⟨s.entries.setIfInBounds (s.entries.size - 1) a⟩

@[ext] theorem ext {s t : Stack α} (h : s.toList = t.toList) : s = t := by
  obtain ⟨s⟩ := s
  obtain ⟨t⟩ := t
  simpa [toList] using h

@[simp] theorem length_toList (s : Stack α) : s.toList.length = s.depth := by
  simp [toList, depth]

@[simp] theorem toList_push (s : Stack α) (a : α) : (s.push a).toList = s.toList ++ [a] := by
  simp [toList, push]

@[simp] theorem toList_cut (s : Stack α) (n : Nat) : (s.cut n).toList = s.toList.take n := by
  simp [toList, cut]

@[simp] theorem depth_push (s : Stack α) (a : α) : (s.push a).depth = s.depth + 1 := by
  simp [depth, push]

@[simp] theorem depth_cut (s : Stack α) (n : Nat) : (s.cut n).depth = min n s.depth := by
  simp [← length_toList]

@[simp] theorem depth_replaceTop (s : Stack α) (a : α) : (s.replaceTop a).depth = s.depth := by
  simp [depth, replaceTop]

@[simp] theorem top?_push (s : Stack α) (a : α) : (s.push a).top? = some a := by
  simp [top?, push]

@[simp] theorem cut_empty (n : Nat) : ({} : Stack α).cut n = {} := by
  ext1
  rw [toList_cut]
  exact List.take_nil

@[simp] theorem cut_depth (s : Stack α) : s.cut s.depth = s := by
  ext1
  simp [← length_toList]

/-- A cut back to the mark undoes a push. -/
@[simp] theorem cut_push (s : Stack α) (a : α) : (s.push a).cut s.depth = s := by
  ext1
  simp [← length_toList]

/-- A cut back to the mark undoes any number of pushes. -/
theorem cut_eq_of_toList_append {s t : Stack α} {above : List α}
    (h : t.toList = s.toList ++ above) : t.cut s.depth = s := by
  ext1
  rw [toList_cut, h, ← length_toList, List.take_left]

/-- Overwriting the top keeps what lies below. -/
@[simp] theorem replaceTop_push (s : Stack α) (a b : α) : (s.push a).replaceTop b = s.push b := by
  ext1
  simp [toList, push, replaceTop]

end Stack

end TraitLang
