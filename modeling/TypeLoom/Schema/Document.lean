import TypeLoom.Schema.Problem
import TypeLoom.Schema.Reading
import TypeLoom.Text.Blank

/-!
# Documents

A document is the definitions of any number of schema files, each with its file, in the order the
files were added, together with the files that contribute at least one definition. A file that is
listed once is not listed again, however its path is spelt.
-/

namespace TypeLoom.Schema

structure SourcedDefinition where
  file : Path
  definition : Definition
  deriving Inhabited, Repr

structure Document where
  definitions : List SourcedDefinition
  sourceFiles : List Path
  deriving Inhabited, Repr

namespace Document

def empty : Document := ⟨[], []⟩

def isEmpty (d : Document) : Bool := d.definitions.isEmpty

/-- Adds a file to a list unless the list has it under some spelling. -/
def addFile (files : List Path) (file : Path) : List Path :=
  if files.any (·.same file) then files else files ++ [file]

/-- Adds the definitions of one file. -/
def append (d : Document) (file : Path) (defs : List Definition) : Document :=
  if defs.isEmpty then d
  else ⟨d.definitions ++ defs.map (⟨file, ·⟩), addFile d.sourceFiles file⟩

/-- One document after another. -/
def union (d e : Document) : Document :=
  ⟨d.definitions ++ e.definitions, e.sourceFiles.foldl addFile d.sourceFiles⟩

def concat (ds : List Document) : Document := ds.foldl union empty

/-- Reads one file; a blank file is an empty document. -/
def parse (file : Path) (content : String) : Except Problem Document :=
  if Text.allBlank content then .ok empty
  else match Reading.read content.toList with
    | .ok defs => .ok (empty.append file defs)
    | .error position => .error (.unreadable file position)

/-- Reads files in order and joins them; the first unreadable file decides. -/
def parseAll (files : List (Path × String)) : Except Problem Document := do
  return concat (← files.mapM fun (file, content) => parse file content)

end Document

end TypeLoom.Schema
