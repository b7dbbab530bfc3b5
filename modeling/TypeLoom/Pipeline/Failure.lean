import TypeLoom.Configuration
import TypeLoom.ResolverModule.Merge
import TypeLoom.Schema.Problem

/-!
# Failures of a run

The causes that end a run, and their wording. Problems of a schema and of resolver modules are
gathered and reported together.
-/

namespace TypeLoom.Pipeline

open Files

/-- Why a plugin rejects its part of the configuration. -/
inductive TableProblem where
  | mismatch (problem : Toml.Mismatch)
  | noExtensions
  | unclearContextImport
  | rejected (reason : String)
  deriving DecidableEq, Inhabited, Repr

def TableProblem.message : TableProblem → String
  | .mismatch p => p.message
  | .noExtensions => "`file_extensions` must not be empty"
  | .unclearContextImport =>
    "expected either `import = \"importPath#importName\"` or `import_path` " ++
      "(with an optional `import_name`)"
  | .rejected reason => reason

/-- Why an operation on the file system failed. -/
inductive FileProblem where
  | os (error : OsError)
  | listing (path : Path) (error : OsError)
  | loop (link ancestor : Path)
  deriving DecidableEq, Inhabited, Repr

def FileProblem.message : FileProblem → String
  | .os e => e.message
  | .listing p e => "IO error for operation on " ++ p.display ++ ": " ++ e.message
  | .loop link ancestor =>
    "File system loop found: " ++ link.display ++ " points to an ancestor " ++ ancestor.display

/-- Why a resolver module was not brought up to date. -/
inductive ModuleProblem where
  | unmerged (module : Path) (problem : ResolverModule.MergeProblem)
  | unread (problem : ReadProblem)
  | unwritten (module : Path) (error : OsError)
  deriving DecidableEq, Inhabited, Repr

def ModuleProblem.message : ModuleProblem → String
  | .unmerged p e => "Failed to merge " ++ p.display ++ ": " ++ e.message
  | .unread e => e.message
  | .unwritten p e => "Failed to write " ++ p.display ++ ": " ++ e.message

inductive Failure where
  | configuration (file : Path) (problem : ConfigurationProblem)
  | fileSystem (path : Path) (problem : FileProblem)
  | schema (problems : List Schema.Problem)
  | invalidTable (plugin : String) (problem : TableProblem)
  | missingPlugin (plugin required : String)
  | invalidSchemaInput (path : Path)
  | noDocument
  | idlePlugin (plugin : String)
  | read (problem : ReadProblem)
  | modules (problems : List ModuleProblem)
  | unknownPlugin (plugin : String)
  deriving DecidableEq, Inhabited, Repr

/-- A heading and one line for each message. -/
def itemised (heading : String) (messages : List String) : String :=
  heading ++ "\n\n" ++ "\n".intercalate (messages.map ("  * " ++ ·))

def Failure.message : Failure → String
  | .configuration f p => "Failed to load configuration from " ++ f.display ++ ": " ++ p.message
  | .fileSystem p e => "Filesystem operation failed on " ++ p.display ++ ": " ++ e.message
  | .schema ps =>
    itemised "Encountered the following errors while generating types:" (ps.map (·.message))
  | .invalidTable id p => "Invalid configuration for the `" ++ id ++ "` plugin: " ++ p.message
  | .missingPlugin id required =>
    "The `" ++ id ++ "` plugin requires the `" ++ required ++ "` plugin to be configured"
  | .invalidSchemaInput p =>
    "Schema input path " ++ p.display ++ " must be either a relative/absolute path to a single " ++
      "GraphQL schema file or to a directory containing one or more GraphQL schema files to be " ++
      "merged"
  | .noDocument => "No configured plugin loaded a schema document"
  | .idlePlugin id => "The `" ++ id ++ "` plugin does not implement any pipeline phase"
  | .read p => p.message
  | .modules ps => itemised "Failed to update the following resolver modules:" (ps.map (·.message))
  | .unknownPlugin id => "No plugin is registered under the id `" ++ id ++ "`"

end TypeLoom.Pipeline
