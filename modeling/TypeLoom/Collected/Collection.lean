import TypeLoom.Collected.Context

/-!
# Collecting a document

Every field of an object, interface or input type ends in one of three places: among the plain
fields of its type, among the resolver fields, or, if its `@resolve` directive is malformed, in a
problem. Fields of input types are always plain. Only the first `@resolve` of a field and the first
`@resolvers` of a type count.

While the walk goes on, operations are assigned by the roots known so far; since roots may be
declared after the types they name, they are assigned again at its end.
-/

namespace TypeLoom.Collected

open Schema

def resolverNameArgument : String := "resolverName"

def importPathArgument : String := "importPath"

/-- Reads the one argument a generator directive takes. `null` counts as absent where `nullable`
holds. The first offending argument decides; of several values the last stands. -/
def argument (expected : String) (nullable : Bool) :
    List (String × Value) → Option String → Except ArgumentProblem (Option String)
  | [], found => .ok found
  | (n, v) :: rest, found =>
    if n != expected then .error (.unknown n expected)
    else match v with
      | .string s => argument expected nullable rest (some s)
      | .null => if nullable then argument expected nullable rest found
          else .error (.notAString expected)
      | _ => .error (.notAString expected)

def directiveProblem (file : Path) (d : Directive) (p : ArgumentProblem) : Problem :=
  .directiveArgument d.name ⟨file, d.position⟩ p

/-- The resolver name that a `@resolve` directive gives explicitly. -/
def explicitResolver (file : Path) (d : Directive) : Except Problem (Option String) :=
  match argument resolverNameArgument true d.arguments none with
  | .ok name => .ok name
  | .error p => .error (directiveProblem file d p)

/-- The module that a `@resolvers` directive asks for. -/
def requestedModule (file : Path) (d : Directive) : Except Problem ModuleRequest :=
  match argument importPathArgument false d.arguments none with
  | .ok (some path) => .ok ⟨path, ⟨file, d.position⟩⟩
  | .ok none => .error (directiveProblem file d (.missing importPathArgument))
  | .error p => .error (directiveProblem file d p)

/-- What a field of an object or interface type is. -/
inductive FieldClass where
  | plain
  | resolver (name : String)
  | malformed (problem : Problem)
  deriving DecidableEq, Inhabited, Repr

def classify (file : Path) (f : Field) : FieldClass :=
  match f.directives.find? (·.name == resolveDirective) with
  | none => .plain
  | some d =>
    match explicitResolver file d with
    | .ok name => .resolver (name.getD f.name)
    | .error p => .malformed p

def outputField (file : Path) (parent : String) (id : FieldId) (f : Field) : CollectedField :=
  { id, file, parent, position := f.position, name := f.name, description := f.description,
    type := f.type, arguments := f.arguments }

def inputField (file : Path) (parent : String) (id : FieldId) (v : InputValue) : CollectedField :=
  { id, file, parent, position := v.position, name := v.name, description := v.description,
    type := v.type, arguments := [] }

namespace Context

def collectOutput (file : Path) (parent : String) (module : Option ModuleRequest)
    (c : Context) (id : FieldId) (f : Field) : Context :=
  let c := c.setMetadata id ⟨c.operationOf parent, parent, module⟩
  let field := outputField file parent id f
  match classify file f with
  | .plain => c.addPlain field
  | .resolver name => c.addResolver ⟨field, name⟩
  | .malformed p => c.addProblem p

def collectOutputs (file : Path) (parent : String) (module : Option ModuleRequest)
    (definition : Nat) (fields : List Field) (c : Context) : Context :=
  fields.zipIdx.foldl (fun c (f, i) => collectOutput file parent module c ⟨definition, i⟩ f) c

def collectInputs (file : Path) (parent : String) (definition : Nat) (fields : List InputValue)
    (c : Context) : Context :=
  fields.zipIdx.foldl (fun c (v, i) => c.addPlain (inputField file parent ⟨definition, i⟩ v)) c

/-- The module a type asks for; a malformed request is a problem and asks for none. -/
def collectRequest (file : Path) (ds : List Directive) (c : Context) :
    Context × Option ModuleRequest :=
  match ds.find? (·.name == resolversDirective) with
  | none => (c, none)
  | some d =>
    match requestedModule file d with
    | .ok request => (c, some request)
    | .error p => (c.addProblem p, none)

/-- The fields of a type definition or extension. -/
def collectFields (file : Path) (definition : Nat) (t : TypeDeclaration) (c : Context) : Context :=
  match t.body with
  | .object _ fields =>
    let (c, request) := c.collectRequest file t.directives
    c.collectOutputs file t.name request definition fields
  | .interface _ fields => c.collectOutputs file t.name none definition fields
  | .input fields => c.collectInputs file t.name definition fields
  | _ => c

/-- The roots a `schema` block binds, in the order of operations. -/
def blockRoots (file : Path) (b : SchemaBlock) : List Root :=
  Operation.all.filterMap fun o => (b.root? o).map fun type => ⟨o, type, ⟨file, b.position⟩⟩

/-- Collects one definition, whose place in the document is `definition`. -/
def collect (definition : Nat) (d : SourcedDefinition) (c : Context) : Context :=
  match d.definition with
  | .schema b => (blockRoots d.file b).foldl bindRoot c.markSchemaBlock
  | .directive _ => c
  | .type t => (c.collectFields d.file definition t).addType ⟨d.file, t⟩
  | .extension t => (c.collectFields d.file definition t).addExtension ⟨d.file, t⟩

end Context

/-- Something that looks at every definition of a document and may have effects of its own. -/
structure Visitor (m : Type → Type) where
  visit : Nat → SourcedDefinition → Context → m Context
  finish : Context → m Context

/-- The visitor that collects. -/
def collector (m : Type → Type) [Monad m] : Visitor m where
  visit i d c := pure (c.collect i d)
  finish c := pure c.resolveOperations

/-- Shows each definition to every visitor before the next one, then lets all finish. -/
def walk {m : Type → Type} [Monad m] (visitors : List (Visitor m)) (d : Document) (c : Context) :
    m Context := do
  let c ← d.definitions.zipIdx.foldlM
    (fun c (x, i) => visitors.foldlM (fun c v => v.visit i x c) c) c
  visitors.foldlM (fun c v => v.finish c) c

/-- Collects a document into a context. -/
def Context.collectDocument (c : Context) (d : Document) : Context :=
  Id.run (walk [collector Id] d c)

end TypeLoom.Collected
