import TypeLoom.Collected.Collection

/-!
# What a document declares

The fields and types of a document, read off its definitions alone. A field is known by the
definition or extension it stands in, and by nothing that was collected before it. Main statement:
the arguments of a generator directive are taken as a whole or refused for the first one that the
directive does not take.
-/

namespace TypeLoom.Collected

open Schema

/-- Whether a directive with one text as its argument takes an argument: it has the expected name
and is a text, or `null` where that counts as absent. -/
def takes (expected : String) (nullable : Bool) : String × Value → Bool
  | (n, .string _) => n == expected
  | (n, .null) => n == expected && nullable
  | _ => false

/-- The texts among some arguments. -/
def texts (arguments : List (String × Value)) : List String :=
  arguments.filterMap fun
    | (_, .string s) => some s
    | _ => none

/-- What is wrong with an argument that a directive does not take. -/
def refusal (expected : String) (a : String × Value) : ArgumentProblem :=
  if a.1 == expected then .notAString expected else .unknown a.1 expected

/-- The first argument that is not taken decides; without one the last text stands. -/
theorem argument_eq (expected : String) (nullable : Bool) (arguments : List (String × Value))
    (found : Option String) :
    argument expected nullable arguments found =
      match arguments.find? fun a => !takes expected nullable a with
      | some a => .error (refusal expected a)
      | none => .ok ((texts arguments).getLast?.or found) := by
  fun_induction argument expected nullable arguments found with
  | case1 found => rfl
  | case2 n v rest found hn =>
    have hname : n ≠ expected := by simpa using hn
    have hrefused : takes expected nullable (n, v) = false := by cases v <;> simp [takes, hname]
    simp [hrefused, refusal, hname]
  | case3 n rest found hn s ih =>
    have hname : n = expected := by simpa using hn
    have htaken : takes expected nullable (n, .string s) = true := by simp [takes, hname]
    have htexts : texts ((n, .string s) :: rest) = s :: texts rest := rfl
    rw [ih, List.find?_cons, htaken, htexts, List.getLast?_cons]
    cases (texts rest).getLast? <;> rfl
  | case4 n rest found hn hnull ih =>
    have hname : n = expected := by simpa using hn
    have htaken : takes expected nullable (n, .null) = true := by simp [takes, hname, hnull]
    have htexts : texts ((n, .null) :: rest) = texts rest := rfl
    rw [ih, List.find?_cons, htaken, htexts]
    rfl
  | case5 n rest found hn hnull =>
    obtain rfl : n = expected := by simpa using hn
    have hrefused : takes n nullable (n, .null) = false := by simp [takes, hnull]
    simp [hrefused, refusal]
  | case6 n v rest found hn hstring hnull =>
    obtain rfl : n = expected := by simpa using hn
    have hrefused : takes n nullable (n, v) = false := by
      cases v with
      | string s => exact absurd rfl (hstring s)
      | null => exact absurd rfl hnull
      | _ => rfl
    simp [hrefused, refusal]

/-- The module that the directives of a type ask for: the first `@resolvers` counts, if its
arguments are texts named `importPath`, and the last of them stands. -/
def requestedBy (file : Path) (directives : List Directive) : Option ModuleRequest :=
  (directives.find? (·.name == resolversDirective)).bind fun d =>
    if d.arguments.all (takes importPathArgument false) then
      (texts d.arguments).getLast?.map fun path => ⟨path, ⟨file, d.position⟩⟩
    else none

/-- What is wrong with the request of a type, if anything: of its first `@resolvers` either the first
argument that is not taken, or that there is none. -/
def requestProblems (file : Path) (directives : List Directive) : List Problem :=
  match directives.find? (·.name == resolversDirective) with
  | none => []
  | some d =>
    match d.arguments.find? fun a => !takes importPathArgument false a with
    | some a => [directiveProblem file d (refusal importPathArgument a)]
    | none =>
      if texts d.arguments = [] then [directiveProblem file d (.missing importPathArgument)] else []

/-- What is wrong with a type apart from its fields. Only object types ask for a module. -/
def typeProblems (file : Path) (t : TypeDeclaration) : List Problem :=
  match t.body with
  | .object .. => requestProblems file t.directives
  | _ => []

/-- A field as it is written, in an object or interface type or in an input type. -/
inductive FieldSource where
  | output (field : Field)
  | input (value : InputValue)
  deriving Inhabited

def FieldSource.isOutput : FieldSource → Bool
  | .output _ => true
  | .input _ => false

/-- The fields of a type, in order. -/
def sources : TypeBody → List FieldSource
  | .object _ fields => fields.map .output
  | .interface _ fields => fields.map .output
  | .input values => values.map .input
  | _ => []

/-- A field with its place, its file and the definition or extension it stands in. -/
structure DeclaredField where
  id : FieldId
  file : Path
  declaration : TypeDeclaration
  source : FieldSource
  deriving Inhabited

namespace DeclaredField

def parent (f : DeclaredField) : String := f.declaration.name

/-- What is known of a field: where it is declared, the type it belongs to, and what it says. -/
def collected (f : DeclaredField) : CollectedField :=
  match f.source with
  | .output g => ⟨f.id, f.file, f.declaration.name, g.position, g.name, g.description, g.type,
      g.arguments⟩
  | .input v => ⟨f.id, f.file, f.declaration.name, v.position, v.name, v.description, v.type, []⟩

/-- Where a field belongs: it is plain unless it is an output field with a `@resolve` directive, the
first of which gives the name of its resolver or is malformed. -/
def fate (f : DeclaredField) : FieldClass :=
  match f.source with
  | .input _ => .plain
  | .output g =>
    match g.directives.find? (·.name == resolveDirective) with
    | none => .plain
    | some d =>
      match d.arguments.find? fun a => !takes resolverNameArgument true a with
      | none => .resolver ((texts d.arguments).getLast?.getD g.name)
      | some a =>
        .malformed (.directiveArgument resolveDirective ⟨f.file, d.position⟩
          (refusal resolverNameArgument a))

/-- The field, if it is plain. -/
def plain? (f : DeclaredField) : Option CollectedField :=
  match f.fate with
  | .plain => some f.collected
  | _ => none

/-- The field with the name of its resolver, if it has one. -/
def resolver? (f : DeclaredField) : Option ResolverField :=
  match f.fate with
  | .resolver name => some ⟨f.collected, name⟩
  | _ => none

/-- What is wrong with the field, if its directive is malformed. -/
def problem? (f : DeclaredField) : Option Problem :=
  match f.fate with
  | .malformed p => some p
  | _ => none

/-- The module that the definition or extension of a field asks for. Only object types ask for
one. -/
def request? (f : DeclaredField) : Option ModuleRequest :=
  match f.declaration.body with
  | .object .. => requestedBy f.file f.declaration.directives
  | _ => none

@[simp]
theorem collected_id (f : DeclaredField) : f.collected.id = f.id := by
  cases f with | mk id file declaration source => cases source <;> rfl

@[simp]
theorem collected_parent (f : DeclaredField) : f.collected.parent = f.parent := by
  cases f with | mk id file declaration source => cases source <;> rfl

@[simp]
theorem collected_file (f : DeclaredField) : f.collected.file = f.file := by
  cases f with | mk id file declaration source => cases source <;> rfl

theorem eq_of_plain? {f : DeclaredField} {g : CollectedField} (h : f.plain? = some g) :
    g = f.collected := by
  unfold plain? at h
  split at h
  · cases h
    rfl
  · cases h

theorem eq_of_resolver? {f : DeclaredField} {r : ResolverField} (h : f.resolver? = some r) :
    r.field = f.collected := by
  unfold resolver? at h
  split at h
  · cases h
    rfl
  · cases h

/-- Only fields of object and interface types have resolvers. -/
theorem isOutput_of_resolver? {f : DeclaredField} {r : ResolverField} (h : f.resolver? = some r) :
    f.source.isOutput = true := by
  cases hsource : f.source with
  | output g => rfl
  | input v =>
    rw [resolver?, fate, hsource] at h
    cases h

end DeclaredField

/-- The type that a definition declares or extends. -/
def declaration? : Definition → Option TypeDeclaration
  | .type t => some t
  | .extension t => some t
  | _ => none

/-- The fields of one type definition or extension, whose place in the document is `i`. -/
def declaredBy (i : Nat) (file : Path) (t : TypeDeclaration) : List DeclaredField :=
  (sources t.body).zipIdx.map fun (s, j) => ⟨⟨i, j⟩, file, t, s⟩

/-- The fields of one definition, whose place in the document is `i`. -/
def declaredIn (i : Nat) (x : SourcedDefinition) : List DeclaredField :=
  ((declaration? x.definition).toList).flatMap (declaredBy i x.file)

/-- The type of a definition, if it defines one with fields. -/
def definedType? (x : SourcedDefinition) : Option SourcedType :=
  match x.definition with
  | .type t => if t.body.fieldedKind?.isSome then some ⟨x.file, t⟩ else none
  | _ => none

/-- The type of an extension, if it extends one with fields. -/
def extendedType? (x : SourcedDefinition) : Option SourcedType :=
  match x.definition with
  | .extension t => if t.body.fieldedKind?.isSome then some ⟨x.file, t⟩ else none
  | _ => none

def SourcedType.isOf (kind : FieldedKind) (t : SourcedType) : Bool :=
  t.declaration.body.fieldedKind? == some kind

end TypeLoom.Collected

namespace TypeLoom.Schema.Document

open Collected

/-- All fields of a document's object, interface and input types, in order. -/
def declaredFields (d : Document) : List DeclaredField :=
  d.definitions.zipIdx.flatMap fun (x, i) => declaredIn i x

/-- All definitions of object, interface and input types, in order. -/
def definedTypes (d : Document) : List SourcedType := d.definitions.filterMap definedType?

/-- All extensions of object, interface and input types, in order. -/
def extendedTypes (d : Document) : List SourcedType := d.definitions.filterMap extendedType?

def plainFields (d : Document) : List CollectedField := d.declaredFields.filterMap (·.plain?)

def resolverFields (d : Document) : List ResolverField := d.declaredFields.filterMap (·.resolver?)

/-- A field stands in a definition of the document. -/
theorem mem_declaredFields {d : Document} {f : DeclaredField} (hf : f ∈ d.declaredFields) :
    ∃ x ∈ d.definitions, f.file = x.file ∧ declaration? x.definition = some f.declaration := by
  simp only [declaredFields, declaredIn, declaredBy, List.mem_flatMap, List.mem_map,
    Option.mem_toList] at hf
  obtain ⟨⟨x, i⟩, hx, t, ht, ⟨s, j⟩, -, rfl⟩ := hf
  exact ⟨x, List.fst_mem_of_mem_zipIdx hx, rfl, ht⟩

theorem mem_definedTypes {d : Document} {t : SourcedType} (ht : t ∈ d.definedTypes) :
    ∃ x ∈ d.definitions, t.file = x.file ∧ x.definition = .type t.declaration ∧
      t.declaration.body.fieldedKind?.isSome = true := by
  obtain ⟨x, hx, hdefined⟩ := List.mem_filterMap.mp ht
  unfold definedType? at hdefined
  split at hdefined
  · rename_i u hdefinition
    split at hdefined
    · rename_i hkind
      cases hdefined
      exact ⟨x, hx, rfl, hdefinition, hkind⟩
    · cases hdefined
  · cases hdefined

end TypeLoom.Schema.Document
