import TypeLoom.Files.Access
import TypeLoom.Toml.Document
import TypeLoom.Toml.Record

/-!
# Configurations

A configuration names plugins, in the order in which they run, each with the value that it reads
its settings from. Relative paths in it start at the directory of the configuration file.
-/

namespace TypeLoom

structure Configuration where
  baseDir : Path
  plugins : List (String × Toml.Value)
  deriving Inhabited, Repr

/-- Why a configuration cannot be loaded. -/
inductive ConfigurationProblem where
  | malformed
  | mismatch (problem : Toml.Mismatch)
  | unreadable (error : Files.OsError)
  | undecodable
  deriving DecidableEq, Inhabited, Repr

def ConfigurationProblem.message : ConfigurationProblem → String
  | .malformed => "the text is not well-formed TOML"
  | .mismatch p => p.message
  | .unreadable e => e.message
  | .undecodable => "stream did not contain valid UTF-8"

namespace Configuration

def defaultFile : Path := ⟨"graphql-typegen.toml"⟩

def pluginsKey : String := "plugins"

/-- Reads one entry of a document; `plugins` is what earlier entries gave. -/
def readEntry (plugins : List (String × Toml.Value)) (entry : String × Toml.Value) :
    Except Toml.Mismatch (List (String × Toml.Value)) :=
  if entry.1 != pluginsKey then .error (.unknownField entry.1 [pluginsKey])
  else match entry.2.entries? with
    | some entries => .ok (plugins ++ entries)
    | none => .error (Toml.mismatch entry.2 "a map")

/-- Reads the text of a configuration. The first offending key of the document is reported. -/
def parse (text : String) (baseDir : Path) : Except ConfigurationProblem Configuration :=
  match Toml.parse? text.toList with
  | none => .error .malformed
  | some entries =>
    match entries.foldlM readEntry [] with
    | .ok plugins => .ok ⟨baseDir, plugins⟩
    | .error p => .error (.mismatch p)

/-- Reads a configuration file. -/
def load {m : Type → Type} [Monad m] [Files.FileAccess m] (p : Path) :
    ExceptT ConfigurationProblem m Configuration := do
  match ← (Files.FileAccess.read p : m _) with
  | .error e => throw (.unreadable e)
  | .ok bytes =>
    match Text.Utf8.decode bytes with
    | .error _ => throw .undecodable
    | .ok cs => parse (String.ofList cs) (p.parent?.getD ⟨""⟩)

end Configuration

end TypeLoom
