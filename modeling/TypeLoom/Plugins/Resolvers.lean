import TypeLoom.Plugins.Declarations
import TypeLoom.ResolverModule.Merge

/-!
# The plugin that brings resolver modules up to date

Every module is brought up to date on its own: one that cannot be read, merged or written is
reported and does not keep the others from being written.
-/

namespace TypeLoom.Plugins

open Pipeline Files Collected Generation ResolverModule

/-- The id of the plugin that brings resolver modules up to date. -/
def resolversId : String := "resolver"

section

variable {m : Type → Type} [Monad m] [FileAccess m]

/-- Takes the answer of the file system to writing a module. -/
def onModule {α : Type} (p : Path) (answer : m (Except OsError α)) : ExceptT ModuleProblem m α := do
  match ← (answer : m _) with
  | .ok x => return x
  | .error e => throw (.unwritten p e)

/-- Brings one module up to date, and tells whether it changed. -/
def updateModule [Parser] (u : Update) : ExceptT ModuleProblem m Bool := do
  match ← ((readTextIfPresent u.module).run : m _) with
  | .error p => throw (.unread p)
  | .ok existing =>
    match merge existing u with
    | .error p => throw (.unmerged u.module p)
    | .ok merged =>
      if existing == some merged then return false
      else
        match u.module.parent? with
        | some parent => onModule u.module (createDirectories parent)
        | none => pure ()
        onModule u.module (writeText u.module merged)
        return true

/-- Adds what became of one module to a report. -/
def addUpdate [Parser] (r : Report) (u : Update) : m Report := do
  match ← (updateModule u).run with
  | .ok true => return { r with mergedModules := r.mergedModules ++ [u.module] }
  | .ok false => return r
  | .error p => return { r with moduleProblems := r.moduleProblems ++ [p] }

def reportConflicts (c : Context) : Action m Report := do
  let paths ← declarationPaths resolversId c
  return .ofProblems (updates c paths).2

def updateModules [Parser] (c : Context) : Action m Report := do
  let paths ← declarationPaths resolversId c
  (updates c paths).1.foldlM (fun r u => (addUpdate r u : m _)) .empty

def resolverPhases [Parser] (output : Option Output) : Phases m :=
  { Phases.idle m with
    initial := prepare output
    collected := reportConflicts
    transform := updateModules }

def resolversPlugin [Parser] (m : Type → Type) [Monad m] [FileAccess m] : Plugin m where
  id := resolversId
  capabilities := [.configure, .initial, .collected, .transform]
  requires := [declarationsId]
  unconfigured := resolverPhases none
  configure t c := return match readOutput "ResolverPluginConfig" t with
    | .error e => (.error e, c)
    | .ok o => (.ok (resolverPhases (some o)), { c with settings :=
        { c.settings with resolversOutput := some o.path, resolversImport := o.importLead } })

end

end TypeLoom.Plugins
