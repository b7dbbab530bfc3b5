import TypeLoom.Pipeline.Run
import TypeLoom.Plugins.RequestContext
import TypeLoom.Plugins.Resolvers

/-!
# The plugins a configuration can name

A registry knows plugins by name. A configuration is run by looking up its plugins in a registry,
in the order of the configuration; `generate` does so with the plugins of the generator itself.
-/

namespace TypeLoom.Plugins

open Pipeline Files
open ResolverModule (Parser)

/-- Plugins by the names that configurations use. -/
structure Registry (m : Type → Type) where
  entries : List (String × Plugin m)

namespace Registry

variable {m : Type → Type}

def empty : Registry m := ⟨[]⟩

/-- Gives a plugin a name; it replaces the one that had the name. -/
def register (r : Registry m) (name : String) (p : Plugin m) : Registry m :=
  if r.entries.any (·.1 == name) then
    ⟨r.entries.map fun e => if e.1 == name then (name, p) else e⟩
  else ⟨r.entries ++ [(name, p)]⟩

def contains (r : Registry m) (name : String) : Bool := r.entries.any (·.1 == name)

def find (r : Registry m) (name : String) : Except Failure (Plugin m) :=
  match r.entries.lookup name with
  | some p => .ok p
  | none => .error (.unknownPlugin name)

variable [Monad m]

/-- The plugins of the generator itself. -/
def builtIn [Parser] (m : Type → Type) [Monad m] [FileAccess m] : Registry m :=
  [schemaPlugin m, declarationsPlugin m, resolversPlugin m, requestContextPlugin m].foldl
    (fun r p => r.register p.id p) empty

/-- Loads the plugins of a configuration in order. -/
def pipeline (r : Registry m) (config : Configuration) (dryRun : Bool) :
    Except Failure (Pipeline m) := do
  let plugins ← config.plugins.mapM fun (name, value) => do
    LoadedPlugin.load (← r.find name) value
  Pipeline.create config.baseDir dryRun plugins

end Registry

/-- Runs the plugins of a configuration. A dry run writes nothing. -/
def generate [Parser] {m : Type → Type} [Monad m] [FileAccess m] (config : Configuration)
    (dryRun : Bool) : m (Except Failure Summary) := do
  match (Registry.builtIn m).pipeline config dryRun with
  | .error e => return .error e
  | .ok p => return (← p.run).1

end TypeLoom.Plugins
