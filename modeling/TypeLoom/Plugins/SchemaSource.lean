import TypeLoom.Pipeline.Plugin

/-!
# The plugin that loads the schema

A schema is one file or all files below a directory with one of the configured extensions.
Directories are searched depth first, the entries of each in the order of their names. Links are
followed; a link to a directory that is being searched is a loop and ends the search.
-/

namespace TypeLoom.Plugins

open Pipeline Files Schema Collected

structure SchemaSource where
  path : Path
  extensions : List String
  deriving DecidableEq, Inhabited, Repr

namespace SchemaSource

def defaultExtensions : List String := ["graphql", "gql"]

/-- Extensions may be written with leading dots. -/
def create (path : Path) (extensions : List String) : SchemaSource :=
  ⟨path, extensions.map fun e => String.ofList (e.toList.dropWhile (· == '.'))⟩

def accepts (s : SchemaSource) (file : Path) : Bool :=
  file.extension?.any fun e => s.extensions.contains (Path.shown e)

/-- The longest path, and so more than the deepest nesting, that a system takes. -/
def maxDepth : Nat := 4096

/-- A directory that is being searched, and the place it leads to. -/
structure Ancestor where
  path : Path
  place : Path
  deriving DecidableEq, Inhabited, Repr

variable {m : Type → Type} [Monad m] [FileAccess m]

/-- Takes the answer of the file system for a path met in a search. -/
def listed {α : Type} (p : Path) (answer : m (Except OsError α)) : Action m α := do
  match ← (answer : m _) with
  | .ok x => return x
  | .error e => throw (.fileSystem p (.listing p e))

/-- The accepted files below a directory, which leads to a known place. -/
def filesBelow (s : SchemaSource) : Nat → List Ancestor → Path → Action m (List Path)
  | 0, _, dir => throw (.fileSystem dir (.listing dir .nameTooLong))
  | depth + 1, ancestors, dir => do
    let names ← listed dir (FileAccess.names dir)
    let found ← (names.mergeSort fun a b => decide (a ≤ b)).mapM fun name => do
      let p := dir.join ⟨name⟩
      match ← listed p (FileAccess.kind p) with
      | .file => return if s.accepts p then [p] else []
      | .other => return []
      | .directory =>
        let place ← listed p (FileAccess.canonical p)
        match ancestors.find? (·.place == place) with
        | some a => throw (.fileSystem p (.loop p a.path))
        | none => filesBelow s depth (⟨p, place⟩ :: ancestors) p
    return found.flatten

/-- The files of a source. A file that is named itself need not have an accepted extension. -/
def files (s : SchemaSource) : Action m (List Path) := do
  if ← (isFile s.path : m Bool) then return [s.path]
  else if ← (isDirectory s.path : m Bool) then
    let place ← listed s.path (FileAccess.canonical s.path)
    s.filesBelow maxDepth [⟨s.path, place⟩] s.path
  else throw (.invalidSchemaInput s.path)

/-- Reads texts into one document; all unreadable ones are reported together. -/
def documentOf (sources : List (Path × String)) : Except Failure Document :=
  let results := sources.map fun (file, content) => Document.parse file content
  let problems := results.filterMap fun | .error p => some p | .ok _ => none
  if problems.isEmpty then
    .ok (Document.concat (results.filterMap fun | .ok d => some d | .error _ => none))
  else .error (.schema problems)

def readSource (file : Path) : Action m (Path × String) := do
  match ← ((readText file).run : m _) with
  | .ok text => return (file, text)
  | .error p => throw (.read p)

/-- The document of all files of a source. -/
def load (s : SchemaSource) : Action m Document := do
  let files ← s.files
  let sources ← files.mapM readSource
  documentOf sources

end SchemaSource

/-- The id of the plugin that loads the schema. -/
def schemaId : String := "schema"

def schemaShape : Toml.RecordShape :=
  ⟨"SchemaPluginConfig", [⟨"input_path", .path, true⟩, ⟨"file_extensions", .texts, false⟩]⟩

/-- The source a table names. -/
def schemaSource (t : Table) : Except Failure SchemaSource := do
  let fields ← t.record schemaShape
  let path := t.path ⟨(Toml.text? fields "input_path").getD ""⟩
  match Toml.texts? fields "file_extensions" with
  | none => return .create path SchemaSource.defaultExtensions
  | some [] => throw (t.problem .noExtensions)
  | some extensions => return .create path extensions

section

variable {m : Type → Type} [Monad m] [FileAccess m]

/-- Loads a document, which takes a source. -/
def loadReport (source : Option SchemaSource) : Action m Report := do
  match source with
  | none => throw .noDocument
  | some s => return .ofDocument (← s.load)

def schemaPhases (source : Option SchemaSource) : Phases m :=
  { Phases.idle m with
    initial := fun _ => loadReport source
    validators := return [extensionRule] }

/-- Loads the schema and checks that extensions extend something. -/
def schemaPlugin (m : Type → Type) [Monad m] [FileAccess m] : Plugin m where
  id := schemaId
  capabilities := [.configure, .initial, .validate]
  requires := []
  unconfigured := schemaPhases none
  configure t c := return match schemaSource t with
    | .error e => (.error e, c)
    | .ok s => (.ok (schemaPhases (some s)),
        { c with settings := { c.settings with schemaInput := some s.path } })

end

end TypeLoom.Plugins
