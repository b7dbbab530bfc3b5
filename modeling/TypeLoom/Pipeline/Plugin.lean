import TypeLoom.Collected.Validation
import TypeLoom.Pipeline.Failure

/-!
# Plugins

A plugin takes part in the phases it declares. Before it is configured it has phases of its own;
configuring it may change the context and gives the phases that are run from then on. All other
phases see the context but do not change it: they answer with a report.
-/

namespace TypeLoom.Pipeline

open Schema Collected

/-- The phases of a run, in their order. -/
inductive Phase where
  | configure
  | initial
  | collect
  | validate
  | collected
  | transform
  | finalized
  deriving DecidableEq, Inhabited, Repr

namespace Phase

def all : List Phase := [configure, initial, collect, validate, collected, transform, finalized]

/-- The value of a phase in a set of phases that is written as a number. -/
def bit (p : Phase) : Nat := Nat.pow 2 (all.idxOf p)

/-- A set of phases as a number. -/
def bits (phases : List Phase) : Nat :=
  (all.filter phases.contains).foldl (fun n p => n + p.bit) 0

end Phase

/-- What a plugin found and did in one phase. -/
structure Report where
  documents : List Document
  problems : List Problem
  mergedModules : List Path
  moduleProblems : List ModuleProblem
  writtenFiles : List Path
  deriving Inhabited, Repr

namespace Report

def empty : Report := ⟨[], [], [], [], []⟩

def isEmpty (r : Report) : Bool :=
  r.documents.isEmpty && r.problems.isEmpty && r.mergedModules.isEmpty &&
    r.moduleProblems.isEmpty && r.writtenFiles.isEmpty

def ofDocument (d : Document) : Report := { empty with documents := [d] }

def ofProblems (ps : List Problem) : Report := { empty with problems := ps }

def ofWritten (files : List Path) : Report := { empty with writtenFiles := files }

end Report

/-- An action that may end the run. -/
abbrev Action (m : Type → Type) := ExceptT Failure m

/-- What a plugin does in the phases after its configuration. -/
structure Phases (m : Type → Type) where
  initial : Context → Action m Report
  collect : m (Option (Visitor m))
  validators : m (List Rule)
  collected : Context → Action m Report
  transform : Context → Action m Report
  finalized : Context → Action m Report

/-- Phases in which nothing happens. -/
def Phases.idle (m : Type → Type) [Monad m] : Phases m where
  initial _ := return .empty
  collect := return none
  validators := return []
  collected _ := return .empty
  transform _ := return .empty
  finalized _ := return .empty

/-- What a plugin is configured with. -/
structure Table where
  plugin : String
  baseDir : Path
  value : Toml.Value
  deriving Inhabited, Repr

namespace Table

def problem (t : Table) (p : TableProblem) : Failure := .invalidTable t.plugin p

def path (t : Table) (p : Path) : Path := t.baseDir.join p

/-- The fields of a record. -/
def record (t : Table) (shape : Toml.RecordShape) : Except Failure (List (String × Toml.Value)) :=
  match shape.read t.value with
  | .ok fields => .ok fields
  | .error p => .error (t.problem (.mismatch p))

end Table

structure Plugin (m : Type → Type) where
  id : String
  capabilities : List Phase
  /-- The plugins that have to run as well. -/
  requires : List String
  unconfigured : Phases m
  /-- Changes the context, also where it fails. -/
  configure : Table → Context → m (Except Failure (Phases m) × Context)

end TypeLoom.Pipeline
