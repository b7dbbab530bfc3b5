import TypeLoom.Pipeline.Plugin

/-!
# Running plugins

A run goes through the phases in order. After validation and again after the phase that follows
collection it ends if the context has problems, so resolver modules are only touched for a schema
without any. A phase that works on files is all or nothing for its reports: they are applied once
every plugin has answered. Transformations are applied one after the other.

Context, summary and pending problems stay from one run to the next.
-/

namespace TypeLoom

namespace Pipeline

/-- The files a run has touched. -/
structure Summary where
  mergedModules : List Path
  writtenFiles : List Path
  deriving DecidableEq, Inhabited, Repr

/-- A plugin with its part of the configuration, and what it does at present. -/
structure LoadedPlugin (m : Type → Type) where
  plugin : Plugin m
  value : Toml.Value
  phases : Phases m

namespace LoadedPlugin

variable {m : Type → Type}

/-- A plugin has to take part in some phase. -/
def load (plugin : Plugin m) (value : Toml.Value) : Except Failure (LoadedPlugin m) :=
  if plugin.capabilities.isEmpty then .error (.idlePlugin plugin.id)
  else .ok ⟨plugin, value, plugin.unconfigured⟩

def has (l : LoadedPlugin m) (p : Phase) : Bool := l.plugin.capabilities.contains p

end LoadedPlugin

end Pipeline

open Pipeline Collected in
/-- Plugins, and what is known so far. -/
structure Pipeline (m : Type → Type) where
  baseDir : Path
  context : Context
  plugins : List (LoadedPlugin m)
  moduleProblems : List ModuleProblem
  summary : Summary

namespace Pipeline

open Collected

/-- A step of a run. The pipeline is kept where the step fails. -/
abbrev Running (m : Type → Type) := ExceptT Failure (StateT (Pipeline m) m)

variable {m : Type → Type}

/-- The first requirement of a plugin that no plugin of a list meets. -/
def missingRequirement? (plugins : List (LoadedPlugin m)) (l : LoadedPlugin m) : Option Failure :=
  (l.plugin.requires.find? fun id => !plugins.any (·.plugin.id == id)).map fun id =>
    .missingPlugin l.plugin.id id

/-- A pipeline of plugins that have all they require. -/
def create (baseDir : Path) (dryRun : Bool) (plugins : List (LoadedPlugin m)) :
    Except Failure (Pipeline m) :=
  match plugins.findSome? (missingRequirement? plugins) with
  | some failure => .error failure
  | none => .ok {
      baseDir
      context := .ofSettings { Generation.Settings.empty with dryRun }
      plugins
      moduleProblems := []
      summary := ⟨[], []⟩ }

/-- The plugins that take part in a phase. -/
def participants (p : Pipeline m) (phase : Phase) : List (LoadedPlugin m) :=
  p.plugins.filter (·.has phase)

/-- Takes over what a report says. -/
def apply (p : Pipeline m) (r : Report) : Pipeline m :=
  { p with
    context := (r.documents.foldl Context.addDocument p.context).addProblems r.problems
    moduleProblems := p.moduleProblems ++ r.moduleProblems
    summary := ⟨p.summary.mergedModules ++ r.mergedModules,
      p.summary.writtenFiles ++ r.writtenFiles⟩ }

variable [Monad m]

/-- Configures plugins in order, as long as none fails. Answers with all plugins as they then are,
and with the context. -/
def configureAll (baseDir : Path) :
    List (LoadedPlugin m) → Context → m (Except Failure Unit × List (LoadedPlugin m) × Context)
  | [], c => return (.ok (), [], c)
  | l :: ls, c => do
    if l.has .configure then
      let (outcome, c) ← l.plugin.configure ⟨l.plugin.id, baseDir, l.value⟩ c
      match outcome with
      | .error e => return (.error e, l :: ls, c)
      | .ok phases =>
        let (rest, ls, c) ← configureAll baseDir ls c
        return (rest, { l with phases } :: ls, c)
    else
      let (rest, ls, c) ← configureAll baseDir ls c
      return (rest, l :: ls, c)

def configure : Running m Unit := do
  let p ← get
  let (outcome, plugins, context) ← (configureAll p.baseDir p.plugins p.context : m _)
  set { p with plugins, context }
  match outcome with
  | .ok () => return
  | .error e => throw e

/-- Lets a plugin act within a run. -/
def perform {α : Type} (a : Action m α) : Running m α := do
  match ← (a.run : m _) with
  | .ok x => return x
  | .error e => throw e

/-- A phase that works on files. -/
def filePhase (phase : Phase) (act : Phases m → Context → Action m Report) : Running m Unit := do
  let p ← get
  let reports ← (p.participants phase).mapM fun l => perform (act l.phases p.context)
  modify fun p => reports.foldl apply p

/-- Collects and checks the document. -/
def collectAndValidate : Running m Unit := do
  let p ← get
  match p.context.document with
  | none => throw .noDocument
  | some d =>
    let visitors ← (p.participants .collect).mapM fun l => (l.phases.collect : m _)
    let rules ← (p.participants .validate).mapM fun l => (l.phases.validators : m _)
    let c ← (walk visitors.reduceOption d p.context : m _)
    let c := rules.flatten.foldl (fun c rule => c.addProblems (rule.check c)) c
    modify fun p => { p with context := c.validate }

/-- Ends the run if there are problems. -/
def checkpoint : Running m Unit := do
  let ps := (← get).context.problems
  unless ps.isEmpty do throw (.schema ps)

/-- Transformations, of which each sees what the ones before it did. -/
def transform : Running m Unit := do
  ((← get).participants .transform).forM fun l => do
    let report ← perform (l.phases.transform (← get).context)
    modify (·.apply report)

/-- Ends the run if modules failed, which are then no longer pending. -/
def moduleCheckpoint : Running m Unit := do
  let ps := (← get).moduleProblems
  unless ps.isEmpty do
    modify fun p => { p with moduleProblems := [] }
    throw (.modules ps)

/-- All phases. -/
def phases : Running m Summary := do
  configure
  filePhase .initial (·.initial)
  collectAndValidate
  checkpoint
  filePhase .collected (·.collected)
  checkpoint
  unless (← get).context.settings.dryRun do
    transform
    filePhase .finalized (·.finalized)
    moduleCheckpoint
  return (← get).summary

/-- Runs a pipeline: the outcome, and the pipeline afterwards. -/
def run (p : Pipeline m) : m (Except Failure Summary × Pipeline m) := (phases.run).run p

end Pipeline

end TypeLoom
