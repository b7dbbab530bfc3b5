import TypeLoom.Generation.Settings
import TypeLoom.Grouping
import TypeLoom.Schema.Folding

/-!
# What has been collected from a schema

A context is the state of one run: the settings, the document loaded so far, the types and fields
collected from it and the problems found. Collected data and problems only ever grow.

A document without a `schema` block has conventional operation roots: an operation's root is then
the type of its conventional name, if that is an object type or is extended as one.
-/

namespace TypeLoom.Collected

open Schema Generation

/-- A type definition or extension and its file. -/
structure SourcedType where
  file : Path
  declaration : TypeDeclaration
  deriving Inhabited, Repr

def SourcedType.location (t : SourcedType) : Location := ⟨t.file, t.declaration.position⟩

/-- A field by the place of its definition in the document and its own place there. -/
structure FieldId where
  definition : Nat
  field : Nat
  deriving DecidableEq, Inhabited, Repr

structure CollectedField where
  id : FieldId
  file : Path
  parent : String
  position : Position
  name : String
  description : Option String
  type : TypeRef
  arguments : List InputValue
  deriving Inhabited, Repr

def CollectedField.location (f : CollectedField) : Location := ⟨f.file, f.position⟩

/-- A field with a resolver of its own, and the name of that resolver. -/
structure ResolverField where
  field : CollectedField
  resolver : String
  deriving Inhabited, Repr

/-- The module a type asks for, and where it does. -/
structure ModuleRequest where
  importPath : String
  location : Location
  deriving DecidableEq, Inhabited, Repr

/-- What is known of a field of an object or interface type besides the field itself. -/
structure FieldMetadata where
  operation : Operation
  parent : String
  module : Option ModuleRequest
  deriving DecidableEq, Inhabited, Repr

/-- The type bound to an operation, and where it was bound. -/
structure Root where
  operation : Operation
  type : String
  location : Location
  deriving DecidableEq, Inhabited, Repr

structure Context where
  settings : Settings
  document : Option Document
  problems : List Problem
  metadata : List (FieldId × FieldMetadata)
  hasSchemaBlock : Bool
  roots : List Root
  objects : Grouping String SourcedType
  interfaces : Grouping String SourcedType
  inputs : Grouping String SourcedType
  extensions : Grouping String SourcedType
  plain : Grouping String CollectedField
  resolvers : Grouping String ResolverField
  deriving Inhabited, Repr

/-- Outcome of looking a type up among object, interface and input definitions. -/
inductive Lookup where
  | notFound
  | found (file : Path)
  | ambiguous (declarations : List Location)
  deriving DecidableEq, Inhabited, Repr

namespace Context

def ofSettings (settings : Settings) : Context :=
  { settings, document := none, problems := [], metadata := [], hasSchemaBlock := false,
    roots := [], objects := .empty, interfaces := .empty, inputs := .empty, extensions := .empty,
    plain := .empty, resolvers := .empty }

def fresh : Context := ofSettings .empty

/-- Adds a document after what has been loaded before. -/
def addDocument (c : Context) (d : Document) : Context :=
  match c.document with
  | some e => { c with document := some (Document.concat [e, d]) }
  | none => { c with document := some d }

def addProblems (c : Context) (ps : List Problem) : Context :=
  { c with problems := c.problems ++ ps }

def addProblem (c : Context) (p : Problem) : Context := c.addProblems [p]

def addPlain (c : Context) (f : CollectedField) : Context :=
  { c with plain := c.plain.add f.parent f }

def addResolver (c : Context) (f : ResolverField) : Context :=
  { c with resolvers := c.resolvers.add f.field.parent f }

/-- Registers a type definition under its name; only types with fields are kept. -/
def addType (c : Context) (t : SourcedType) : Context :=
  match t.declaration.body.fieldedKind? with
  | some .object => { c with objects := c.objects.add t.declaration.name t }
  | some .interface => { c with interfaces := c.interfaces.add t.declaration.name t }
  | some .input => { c with inputs := c.inputs.add t.declaration.name t }
  | none => c

/-- Registers a type extension under its name; only types with fields are kept. -/
def addExtension (c : Context) (t : SourcedType) : Context :=
  if t.declaration.body.fieldedKind?.isSome then
    { c with extensions := c.extensions.add t.declaration.name t }
  else c

def metadataOf? (c : Context) (id : FieldId) : Option FieldMetadata := c.metadata.lookup id

/-- The later of two entries for one field stands. -/
def setMetadata (c : Context) (id : FieldId) (m : FieldMetadata) : Context :=
  { c with metadata := (id, m) :: c.metadata.filter (·.1 != id) }

/-- Notes that the document has a `schema` block, which turns the conventional roots off. -/
def markSchemaBlock (c : Context) : Context := { c with hasSchemaBlock := true }

/-- Binds an operation root. The first binding stands, a later one is a problem. -/
def bindRoot (c : Context) (r : Root) : Context :=
  match c.roots.find? (·.operation == r.operation) with
  | some bound => c.addProblem (.duplicateOperation r.operation bound.location r.location)
  | none => { c with roots := c.roots ++ [r] }

/-- Whether a name is declared or extended as an object type. -/
def isObjectName (c : Context) (name : String) : Bool :=
  c.objects.hasKey name ||
    (c.extensions.get name).any (·.declaration.body.fieldedKind? == some .object)

/-- The type that serves as the root of an operation. -/
def root? (c : Context) (o : Operation) : Option String :=
  match c.roots.find? (·.operation == o) with
  | some r => some r.type
  | none =>
    if c.hasSchemaBlock then none
    else if c.isObjectName o.conventionalRoot then some o.conventionalRoot
    else none

/-- The operation a type belongs to; all but the other two roots belong to queries. -/
def operationOf (c : Context) (type : String) : Operation :=
  if c.root? .mutation == some type then .mutation
  else if c.root? .subscription == some type then .subscription
  else .query

/-- Assigns every field its operation by the roots known now. -/
def resolveOperations (c : Context) : Context :=
  { c with metadata := c.metadata.map fun (id, m) =>
      (id, { m with operation := c.operationOf m.parent }) }

/-- The definitions of a name: objects, then interfaces, then inputs. -/
def declarationsOf (c : Context) (name : String) : List SourcedType :=
  c.objects.get name ++ c.interfaces.get name ++ c.inputs.get name

def lookup (c : Context) (name : String) : Lookup :=
  match c.declarationsOf name with
  | [] => .notFound
  | [t] => .found t.file
  | ts => .ambiguous (ts.map (·.location))

end Context

end TypeLoom.Collected
