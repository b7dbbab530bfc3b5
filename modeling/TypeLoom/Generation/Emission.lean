import TypeLoom.Declaration.Text
import TypeLoom.Generation.TypeMapping

/-!
# Emitting declarations

One file of declarations for each schema file that defines an object, interface or input type or
declares a resolver field, and one file that all of them share. A type's interface has one member
for each of its plain fields, wherever they were declared; resolver fields are declared in the file
that declares them, each with the type of its arguments, and in one interface for each group.
-/

namespace TypeLoom.Generation

open Schema Declaration Collected

/-- A file of declarations, where it goes and how it is imported. -/
structure EmittedModule where
  importPath : String
  contents : Contents
  output : Path
  source : Option Path
  deriving Inhabited, Repr

def EmittedModule.text (m : EmittedModule) : String := m.contents.text

/-- The name of the type of all resolvers, exported by the shared file. -/
def resolverTypeName : String := "Resolver"

/-- Definitions and fields by the place where they stand in one file. -/
def byPosition {α : Type} (position : α → Position) (xs : List α) : List α :=
  xs.mergeSort fun a b => ((position a).compare (position b)).isLE

/-- The types defined in a file, by position. -/
def typesIn (c : Context) (file : Path) : List SourcedType :=
  byPosition (·.declaration.position) <|
    (c.objects.values ++ c.interfaces.values ++ c.inputs.values).filter (·.file.same file)

/-- The resolver fields declared in a file, by position, in groups. -/
def resolversIn (c : Context) (file : Path) : Grouping String ResolverField :=
  Grouping.ofList (fun f => groupName file f.field.parent) <|
    byPosition (·.field.position) (c.resolvers.values.filter (·.field.file.same file))

/-- The interfaces a definition or extension implements. -/
def implemented (t : TypeDeclaration) : List String :=
  match t.body with
  | .object interfaces _ => interfaces
  | .interface interfaces _ => interfaces
  | _ => []

/-- Interfaces with those of an extension that are not among them yet. -/
def inheritFrom (inherited : List String) (e : SourcedType) : List String :=
  (implemented e.declaration).foldl
    (fun acc name => if acc.contains name then acc else acc ++ [name]) inherited

/-- The interfaces of a type: its own, then those that its extensions add. -/
def inheritedInterfaces (c : Context) (t : TypeDeclaration) : List String :=
  match t.body with
  | .input _ => []
  | _ => (c.extensions.get t.name).foldl inheritFrom (implemented t)

def memberOf (c : Context) (paths : OutputPaths) (f : CollectedField) : Mapped Member := do
  let type ← mapType c paths f.location f.type
  return ⟨f.description, f.name, type⟩

/-- The interface of a type. -/
def typeInterface (c : Context) (paths : OutputPaths) (t : SourcedType) : Mapped Declaration := do
  let name := t.declaration.name
  let bases ← (inheritedInterfaces c t.declaration).mapM (mapName c paths t.location)
  let members ← (c.plain.get name).mapM (memberOf c paths)
  return .interface t.declaration.description name (bases.filterMap TypeExpr.referenceName?) members

/-- The operation a resolver field belongs to. -/
def operationOfField (c : Context) (f : CollectedField) : Operation :=
  match c.metadataOf? f.id with
  | some m => m.operation
  | none => c.operationOf f.parent

/-- The name of the type of a field's resolver. -/
def resolverNameOf (c : Context) (f : CollectedField) : String :=
  resolverName f.file f.parent f.name (operationOfField c f)

def argumentMember (c : Context) (paths : OutputPaths) (file : Path) (v : InputValue) :
    Mapped Member := do
  let type ← mapType c paths ⟨file, v.position⟩ v.type
  return ⟨v.description, v.name, type⟩

/-- The type of a resolver's arguments; `undefined` when it has none. -/
def argumentsType (c : Context) (paths : OutputPaths) (f : CollectedField) (name : String) :
    Mapped Declaration :=
  if f.arguments.isEmpty then pure (.alias none name [] .undefined)
  else do
    let members ← f.arguments.mapM (argumentMember c paths f.file)
    return .interface none name [] members

/-- The types of a resolver's arguments and of the resolver itself. -/
def resolverTypes (c : Context) (paths : OutputPaths) (r : ResolverField) :
    Mapped (List Declaration) := do
  let f := r.field
  let name := resolverNameOf c f
  let arguments ← argumentsType c paths f (argumentsName name)
  let parent ← mapName c paths f.location f.parent
  let result ← mapType c paths f.location f.type
  needShared paths resolverTypeName
  let type := TypeExpr.reference resolverTypeName [parent, .named (argumentsName name), result]
  return [arguments, .alias f.description name [] type]

/-- The interface of all resolvers of a group. -/
def groupInterface (c : Context) (group : String) (rs : List ResolverField) : Declaration :=
  .interface none (resolversName group) []
    (rs.map fun r => ⟨none, r.resolver, .named (resolverNameOf c r.field)⟩)

/-- All declarations of a group. -/
def groupDeclarations (c : Context) (paths : OutputPaths)
    (group : String × List ResolverField) : Mapped (List Declaration) := do
  let types ← group.2.mapM (resolverTypes c paths)
  return types.flatten ++ [groupInterface c group.1 group.2]

/-- All declarations of a schema file. -/
def fileDeclarations (c : Context) (paths : OutputPaths) (file : Path) :
    Mapped (List Declaration) := do
  let types ← (typesIn c file).mapM (typeInterface c paths)
  let groups ← (resolversIn c file).mapM (groupDeclarations c paths)
  return types ++ groups.flatten

/-- The file for a schema file, if that has anything to declare. -/
def emitFile (c : Context) (paths : OutputPaths) (file : Path) :
    Option (EmittedModule × List Problem) :=
  if (typesIn c file).isEmpty && (resolversIn c file).isEmpty then none
  else
    let mapped := fileDeclarations c paths file
    let importPath := paths.typesImportPath file
    some ({ importPath
            contents := ⟨(mapped.dependencies.erase importPath).imports, mapped.value⟩
            output := paths.typesModule file
            source := some file }, mapped.problems)

/-- The files for all schema files of the document, and the problems in them. -/
def emit (c : Context) (paths : OutputPaths) : List EmittedModule × List Problem :=
  let emitted := ((c.document.map (·.sourceFiles)).getD []).filterMap (emitFile c paths)
  (emitted.map (·.1), emitted.flatMap (·.2))

/-- The name of the type of the request context. -/
def contextTypeName : String := "Context"

def contextTypeImport (i : ContextImport) : Import :=
  if i.name == ContextImport.defaultName then ⟨some contextTypeName, [], i.path⟩
  else if i.name == contextTypeName then ⟨none, [⟨contextTypeName, none⟩], i.path⟩
  else ⟨none, [⟨i.name, some contextTypeName⟩], i.path⟩

def maybeType : Declaration :=
  .alias none TypeExpr.maybeName ["T"] (.union [.named "T", .null, .undefined])

def resolverType : Declaration :=
  .alias
    (some ("Signature of a field resolver: receives the request context, the parent object and " ++
      "the field arguments."))
    resolverTypeName ["TParent", "TArgs", "TResult"]
    (.function
      [("context", .named contextTypeName), ("parent", .named "TParent"), ("args", .named "TArgs"),
        ("info", .named "GraphQLResolveInfo")]
      (.named "TResult"))

/-- The file that all others import from. -/
def emitShared (c : Context) (paths : OutputPaths) : EmittedModule :=
  let info : Import := ⟨none, [⟨"GraphQLResolveInfo", none⟩], "graphql"⟩
  let contents : Contents :=
    match c.settings.contextImport with
    | some i => ⟨[info, contextTypeImport i], [maybeType, resolverType]⟩
    | none => ⟨[info], [maybeType, .alias none contextTypeName [] .undefined, resolverType]⟩
  { importPath := paths.sharedImportPath, contents, output := paths.sharedModule, source := none }

end TypeLoom.Generation
