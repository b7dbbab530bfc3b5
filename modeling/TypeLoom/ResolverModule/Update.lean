import TypeLoom.Collected.Context
import TypeLoom.Declaration.Dependencies

/-!
# What a resolver module has to implement

Resolver fields are gathered by the module that implements them. A module is typed by one
interface, so a module that would get fields of several groups is a problem instead of an update.
-/

namespace TypeLoom.ResolverModule

open Schema Collected Generation

/-- A resolver a module has to implement. -/
structure Stub where
  parent : String
  name : String
  deriving DecidableEq, Inhabited, Repr

/-- What brings one module up to date. -/
structure Update where
  importPath : String
  module : Path
  stubs : List Stub
  type : String
  deriving DecidableEq, Inhabited, Repr

/-- A resolver field, the module it goes to and the interface that types it. -/
structure Assignment where
  module : Path
  type : String
  field : ResolverField
  deriving Inhabited, Repr

def assign? (c : Context) (paths : OutputPaths) (r : ResolverField) : Option Assignment :=
  let f := r.field
  let request := (c.metadataOf? f.id).bind (·.module)
  (paths.resolverModule? f.file f.parent (request.map (·.importPath))).map fun module =>
    { module, type := resolversName (groupName f.file f.parent), field := r }

/-- The distinct texts of a list in ascending order. -/
def distinct (names : List String) : List String :=
  names.foldl (fun acc n => Declaration.insertName n acc) []

/-- The update of a module from the fields assigned to it, or the problem that there are several
interfaces. -/
def ofGroup (paths : OutputPaths) (first : Assignment) (group : List Assignment) :
    Except Problem Update :=
  let types := distinct (group.map (·.type))
  if 1 < types.length then .error (.conflictingResolverModule first.module types)
  else .ok {
    importPath := paths.typesImportPath first.field.field.file
    module := first.module
    stubs := group.map fun a => ⟨a.field.field.parent, a.field.resolver⟩
    type := first.type }

/-- The updates of all modules, in order of first appearance, and the conflicts. -/
def updates (c : Context) (paths : OutputPaths) : List Update × List Problem :=
  let assigned := c.resolvers.values.filterMap (assign? c paths)
  let results := (Grouping.ofList (·.module.components) assigned).filterMap fun (_, group) =>
    group.head?.map fun first => ofGroup paths first group
  (results.filterMap fun | .ok u => some u | .error _ => none,
    results.filterMap fun | .ok _ => none | .error p => some p)

end TypeLoom.ResolverModule
