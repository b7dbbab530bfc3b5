import TypeLoom.Path

/-!
# Positions in files

A position is a line and a column, both counted from one. A location adds the file. Locations are
ordered by file, then line, then column.
-/

namespace TypeLoom

structure Position where
  line : Nat
  column : Nat
  deriving DecidableEq, Inhabited, Repr

namespace Position

def text (p : Position) : String := s!"{p.line}:{p.column}"

def advance (p : Position) (n : Nat) : Position := ⟨p.line, p.column + n⟩

def nextLine (p : Position) : Position := ⟨p.line + 1, 1⟩

/-- The position after a piece of text that may span lines. -/
def after (p : Position) (cs : List Char) : Position :=
  cs.foldl (fun q c => if c == '\n' then q.nextLine else q.advance 1) p

def compare (p q : Position) : Ordering :=
  (Ord.compare p.line q.line).then (Ord.compare p.column q.column)

end Position

structure Location where
  file : Path
  position : Position
  deriving DecidableEq, Inhabited, Repr

namespace Location

def text (l : Location) : String := l.file.display ++ ":" ++ l.position.text

def compare (l k : Location) : Ordering :=
  (l.file.compare k.file).then (l.position.compare k.position)

/-- Locations in order; equal ones keep their order. -/
def sorted (ls : List Location) : List Location :=
  ls.mergeSort fun l k => (l.compare k).isLE

/-- The texts of the locations, separated by commas. -/
def listText (ls : List Location) : String := ", ".intercalate (ls.map text)

end Location

end TypeLoom
