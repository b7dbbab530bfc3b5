import TypeLoom.Files.OsError
import TypeLoom.Path
import TypeLoom.Text.Utf8

/-!
# Access to files

What the generator asks of a file system, so that one and the same code works on the files of a
machine and on a tree held in memory. Symbolic links are followed throughout.
-/

namespace TypeLoom.Files

inductive Kind where
  | file
  | directory
  | other
  deriving DecidableEq, Inhabited, Repr

class FileAccess (m : Type → Type) where
  /-- What a path leads to. -/
  kind : Path → m (Except OsError Kind)
  /-- The absolute path without links to the same place. -/
  canonical : Path → m (Except OsError Path)
  /-- The names in a directory. -/
  names : Path → m (Except OsError (List String))
  read : Path → m (Except OsError (List UInt8))
  /-- Creates a directory where nothing stands, in a directory that exists. -/
  createDirectory : Path → m (Except OsError Unit)
  /-- Replaces the content of a file, which is created if it does not exist. -/
  write : Path → List UInt8 → m (Except OsError Unit)

variable {m : Type → Type} [Monad m] [FileAccess m]

def hasKind (kind : Kind) (p : Path) : m Bool := do
  match ← FileAccess.kind p with
  | .ok k => return k == kind
  | .error _ => return false

def isFile (p : Path) : m Bool := hasKind .file p

def isDirectory (p : Path) : m Bool := hasKind .directory p

/-- A path and the paths above it, as long as they are not empty. -/
def lineage : Nat → Path → List Path
  | 0, _ => []
  | n + 1, p =>
    if p.raw.isEmpty then []
    else p :: match p.parent? with
      | some parent => lineage n parent
      | none => []

/-- Creates a directory unless there is one. -/
def ensureDirectory (p : Path) : m (Except OsError Unit) := do
  match ← FileAccess.createDirectory p with
  | .ok () => return .ok ()
  | .error e => if ← isDirectory p then return .ok () else return .error e

/-- Creates the first directory of a list. Where that takes them, the others are created before. -/
def createLineage : List Path → m (Except OsError Unit)
  | [] => return .ok ()
  | p :: above => do
    match ← ensureDirectory p with
    | .ok () => return .ok ()
    | .error e =>
      if e == .notFound then
        match ← createLineage above with
        | .ok () => ensureDirectory p
        | .error e => return .error e
      else return .error e

/-- Creates a directory and those above it; directories that exist are left alone. -/
def createDirectories (p : Path) : m (Except OsError Unit) :=
  createLineage (lineage (p.raw.length + 1) p)

/-- Why a file cannot be read as text. -/
inductive ReadProblem where
  | undecodable (file : Path) (error : Text.Utf8.DecodeError)
  | unreadable (file : Path) (error : OsError)
  | notAFile (path : Path)
  deriving DecidableEq, Inhabited, Repr

def ReadProblem.message : ReadProblem → String
  | .undecodable f e => "Failed to decode " ++ f.display ++ " as UTF-8: " ++ e.message
  | .unreadable f e => "Failed to read " ++ f.display ++ ": " ++ e.message
  | .notAFile p => "Expected a file at " ++ p.display

/-- The text of a file. -/
def readText (p : Path) : ExceptT ReadProblem m String := do
  unless ← (isFile p : m Bool) do throw (.notAFile p)
  match ← (FileAccess.read p : m _) with
  | .error e => throw (.unreadable p e)
  | .ok bytes =>
    match Text.Utf8.decode bytes with
    | .error e => throw (.undecodable p e)
    | .ok cs => return String.ofList cs

/-- The text of a file, or none when nothing exists at its path. -/
def readTextIfPresent (p : Path) : ExceptT ReadProblem m (Option String) := do
  match ← (FileAccess.kind p : m _) with
  | .ok _ => return some (← readText p)
  | .error e => if e == .notFound then return none else throw (.unreadable p e)

def writeText (p : Path) (text : String) : m (Except OsError Unit) :=
  FileAccess.write p (Text.Utf8.encode text.toList)

end TypeLoom.Files
