import TypeLoom.ResolverModule.Node

/-!
# Edits of a text

An edit replaces a stretch of a text. Edits are made back to front, so that the stretches of those
still to be made stay where they are; of edits that start at one offset, the text of the one given
first comes first.
-/

namespace TypeLoom.ResolverModule

structure Edit where
  span : Span
  text : List Char
  deriving DecidableEq, Inhabited, Repr

namespace Edit

/-- An insertion. -/
def insertAt (offset : Nat) (text : List Char) : Edit := ⟨⟨offset, offset⟩, text⟩

def apply (cs : List Char) (e : Edit) : List Char :=
  cs.take e.span.start ++ e.text ++ cs.drop e.span.stop

/-- The order in which edits are made: later starts first, and of one start the last one given. -/
def backToFront (es : List Edit) : List Edit :=
  es.reverse.mergeSort fun a b => b.span.start ≤ a.span.start

def applyAll (cs : List Char) (es : List Edit) : List Char := (backToFront es).foldl apply cs

end Edit

end TypeLoom.ResolverModule
