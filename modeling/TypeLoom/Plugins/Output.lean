import TypeLoom.Pipeline.Plugin

/-!
# What plugins with an output directory share

Both plugins that write files read the same fields, create their directory at the start of a run
that is not dry, and need to know where files go.
-/

namespace TypeLoom.Plugins

open Pipeline Files Collected Generation

/-- Where a plugin writes, and how what it writes is imported. -/
structure Output where
  path : Path
  importLead : Option String
  deriving DecidableEq, Inhabited, Repr

def outputShape (name : String) : Toml.RecordShape :=
  ⟨name, [⟨"output_path", .path, true⟩, ⟨"import_prefix", .text, false⟩]⟩

def readOutput (name : String) (t : Table) : Except Failure Output := do
  let fields ← t.record (outputShape name)
  return ⟨t.path ⟨(Toml.text? fields "output_path").getD ""⟩, Toml.text? fields "import_prefix"⟩

variable {m : Type → Type} [Monad m] [FileAccess m]

/-- Takes the answer of the file system for a path. -/
def onFile {α : Type} (p : Path) (answer : m (Except OsError α)) : Action m α := do
  match ← (answer : m _) with
  | .ok x => return x
  | .error e => throw (.fileSystem p (.os e))

def makeDirectories (p : Path) : Action m Unit := onFile p (createDirectories p)

/-- Writes a file, and creates the directories above it. -/
def writeFile (p : Path) (text : String) : Action m Unit := do
  match p.parent? with
  | some parent => unless parent.raw.isEmpty do makeDirectories parent
  | none => pure ()
  onFile p (writeText p text)

/-- Creates the directory of an output unless the run is dry. -/
def prepare (output : Option Output) (c : Context) : Action m Report := do
  match output with
  | some o => unless c.settings.dryRun do makeDirectories o.path
  | none => pure ()
  return .empty

/-- Where files go, for a plugin that cannot do without. `source` and `target` are the plugins that
say where the schema is and where declarations go. -/
def outputPaths (source target plugin : String) (c : Context) : Action m OutputPaths := do
  let inputIsFile ← match c.settings.schemaInput with
    | some p => (isFile p : m Bool)
    | none => pure false
  match c.settings.outputPaths? inputIsFile with
  | some paths => return paths
  | none => throw (.missingPlugin plugin (if c.settings.schemaInput.isNone then source else target))

end TypeLoom.Plugins
