import TypeLoom.Pipeline.Plugin

/-!
# The plugin that names the type of the request context

The type is given in short as `path#name`, or by a path and, unless it is the default export, a
name of its own.
-/

namespace TypeLoom.Plugins

open Pipeline Collected Generation

/-- The id of the plugin that names the type of the request context. -/
def requestContextId : String := "context"

def requestContextShape : Toml.RecordShape :=
  ⟨"ContextPluginConfig",
    [⟨"import", .text, false⟩, ⟨"import_name", .text, false⟩, ⟨"import_path", .text, false⟩]⟩

/-- The type that three fields name; the short form and the long one exclude each other. -/
def contextImport? (short name path : Option String) : Option ContextImport :=
  match short, name, path with
  | some short, none, none => ContextImport.parse? short
  | none, name, some path =>
    ContextImport.parse? (path ++ "#" ++ name.getD ContextImport.defaultName)
  | _, _, _ => none

def readContextImport (t : Table) : Except Failure ContextImport := do
  let fields ← t.record requestContextShape
  match contextImport? (Toml.text? fields "import") (Toml.text? fields "import_name")
      (Toml.text? fields "import_path") with
  | some i => return i
  | none => throw (t.problem .unclearContextImport)

def requestContextPlugin (m : Type → Type) [Monad m] : Plugin m where
  id := requestContextId
  capabilities := [.configure]
  requires := []
  unconfigured := .idle m
  configure t c := return match readContextImport t with
    | .error e => (.error e, c)
    | .ok i => (.ok (.idle m), { c with settings := { c.settings with contextImport := some i } })

end TypeLoom.Plugins
