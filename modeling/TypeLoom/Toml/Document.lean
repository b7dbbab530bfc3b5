import TypeLoom.Toml.Reading

/-!
# Configuration documents

Joins the lines of a text into tables. A header opens a table that must not be open already; a
table that so far only contains other tables may be opened once, and then moves to the end of the
table that contains it.
-/

namespace TypeLoom.Toml

open Reading (Line)

/-- A header, or none at the start of a document, and the assignments under it. -/
structure Section where
  path : List String
  isItem : Bool
  assignments : List (List String × Value)
  deriving Inhabited

/-- Cuts lines at headers; `current` is the section being read. -/
def sectionsFrom (current : Section) : List Line → List Section
  | [] => [current]
  | .header path :: ls => current :: sectionsFrom ⟨path, false, []⟩ ls
  | .item path :: ls => current :: sectionsFrom ⟨path, true, []⟩ ls
  | .assignment path v :: ls =>
    sectionsFrom { current with assignments := current.assignments ++ [(path, v)] } ls

namespace Section

def fill (s : Section) (es : Entries) : Option Entries :=
  s.assignments.foldlM (fun es (path, v) => es.assign path v) es

/-- Opens the table of a key in the table that contains it, and fills it. -/
def open? (s : Section) (k : String) (parent : Entries) : Option Entries := do
  let others := parent.filter (·.1 != k)
  match parent.lookup k with
  | none => return others ++ [(k, .table false false (← s.fill []))]
  | some (.table true false es) => return others ++ [(k, .table false false (← s.fill es))]
  | some _ => none

/-- Adds an item to the array of tables of a key, and fills it. -/
def addItem? (s : Section) (k : String) (parent : Entries) : Option Entries := do
  let item ← s.fill []
  match parent.lookup k with
  | none => return parent ++ [(k, .tables [item])]
  | some (.tables items) => return parent.set k (.tables (items ++ [item]))
  | some _ => none

/-- Adds a section to a document. -/
def addTo (s : Section) (root : Entries) : Option Entries :=
  match s.path.getLast? with
  | none => s.fill root
  | some k => root.modifyAt false s.path.dropLast (if s.isItem then s.addItem? k else s.open? k)

end Section

/-- The entries of a document, or none when the text is not well formed. -/
def parse? (cs : List Char) : Option (List (String × Value)) := do
  let lines ← Reading.lines? cs
  let root ← (sectionsFrom ⟨[], false, []⟩ lines).foldlM (fun es s => s.addTo es) ([] : Entries)
  return finishEntries root

end TypeLoom.Toml
