import TypeLoom.Declaration.Basic

/-!
# What a file has to import

Names by the path they are imported from. Paths and names are in ascending order, without repeats.
-/

namespace TypeLoom.Declaration

/-- Inserts into an ascending list without repeats. -/
def insertName (name : String) : List String → List String
  | [] => [name]
  | n :: ns =>
    if name < n then name :: n :: ns
    else if name == n then n :: ns
    else n :: insertName name ns

structure Dependencies where
  entries : List (String × List String)
  deriving DecidableEq, Inhabited, Repr

namespace Dependencies

def empty : Dependencies := ⟨[]⟩

def isEmpty (d : Dependencies) : Bool := d.entries.isEmpty

def size (d : Dependencies) : Nat := d.entries.length

def addEntry (path name : String) : List (String × List String) → List (String × List String)
  | [] => [(path, [name])]
  | (p, ns) :: rest =>
    if path < p then (path, [name]) :: (p, ns) :: rest
    else if path == p then (p, insertName name ns) :: rest
    else (p, ns) :: addEntry path name rest

/-- Adds a name imported from a path. -/
def add (d : Dependencies) (path name : String) : Dependencies := ⟨addEntry path name d.entries⟩

def get? (d : Dependencies) (path : String) : Option (List String) := d.entries.lookup path

def erase (d : Dependencies) (path : String) : Dependencies :=
  ⟨d.entries.filter fun e => e.1 != path⟩

/-- One import for each path. -/
def imports (d : Dependencies) : List Import :=
  d.entries.map fun (path, names) => ⟨none, names.map (⟨·, none⟩), path⟩

end Dependencies

end TypeLoom.Declaration
