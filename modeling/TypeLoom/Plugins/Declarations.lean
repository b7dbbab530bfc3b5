import TypeLoom.Generation.Emission
import TypeLoom.Plugins.Output
import TypeLoom.Plugins.SchemaSource

/-!
# The plugin that writes declarations

It collects the schema, writes the declaration files and, at the end, the folded schema. Files are
written in order; where one fails, those before it have been written.
-/

namespace TypeLoom.Plugins

open Pipeline Files Collected Generation

/-- The id of the plugin that writes declarations. -/
def declarationsId : String := "typescript"

section

variable {m : Type → Type} [Monad m] [FileAccess m]

def declarationPaths (plugin : String) (c : Context) : Action m OutputPaths :=
  outputPaths schemaId declarationsId plugin c

/-- Writes files in order. -/
def writeFiles (files : List (Path × String)) : Action m Report := do
  files.forM fun (p, text) => writeFile p text
  return .ofWritten (files.map (·.1))

/-- All declaration files, or nothing but the problems. -/
def writeDeclarations (c : Context) : Action m Report := do
  let paths ← declarationPaths declarationsId c
  let (modules, problems) := emit c paths
  if !problems.isEmpty then return .ofProblems problems
  else if c.settings.dryRun then return .empty
  else writeFiles ((emitShared c paths :: modules).map fun e => (e.output, e.text))

def writeSnapshot (c : Context) : Action m Report := do
  match c.document with
  | none => return .empty
  | some d =>
    let paths ← declarationPaths declarationsId c
    writeFiles [(paths.snapshot, d.snapshot)]

def declarationPhases (output : Option Output) : Phases m :=
  { Phases.idle m with
    initial := prepare output
    collect := return some (collector m)
    collected := writeDeclarations
    finalized := writeSnapshot }

def declarationsPlugin (m : Type → Type) [Monad m] [FileAccess m] : Plugin m where
  id := declarationsId
  capabilities := [.configure, .initial, .collect, .collected, .finalized]
  requires := [schemaId]
  unconfigured := declarationPhases none
  configure t c := return match readOutput "TypeScriptPluginConfig" t with
    | .error e => (.error e, c)
    | .ok o => (.ok (declarationPhases (some o)), { c with settings :=
        { c.settings with typesOutput := some o.path, typesImport := o.importLead } })

end

end TypeLoom.Plugins
