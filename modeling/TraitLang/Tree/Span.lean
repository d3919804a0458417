/-!
Source positions. They are carried along for diagnostics and never decide what a program computes.
-/
namespace TraitLang

/-- A position in a source file, counted from one; line zero means that none was recorded. -/
structure Span where
  line : UInt32 := 0
  col : UInt32 := 0
deriving DecidableEq, Repr, Inhabited

namespace Span

def unknown : Span := {}

def isKnown (s : Span) : Bool := s.line != 0

/-- `line:col` -/
def text (s : Span) : String := toString s.line ++ ":" ++ toString s.col

@[simp] theorem isKnown_unknown : unknown.isKnown = false := rfl

end Span

/-- A node of a tree with its source position. -/
structure Spanned (α : Type) where
  node : α
  span : Span := {}
deriving Repr, Inhabited

namespace Spanned

def map {α β : Type} (f : α → β) (x : Spanned α) : Spanned β := ⟨f x.node, x.span⟩

@[simp] theorem node_map {α β : Type} (f : α → β) (x : Spanned α) : (x.map f).node = f x.node := rfl

@[simp] theorem span_map {α β : Type} (f : α → β) (x : Spanned α) : (x.map f).span = x.span := rfl

end Spanned

end TraitLang
