import TypeLoom.Collected.Validation
import TypeLoom.Generation.Emission
import TypeLoom.ResolverModule.Merge

/-!
# What does not depend on whether a run is dry

Collecting a document, checking what was collected and putting declarations together do not look at
whether files are to be written. Main statement: collected in a context of a run in earnest, a
document gives the context that it gives in a dry run, in earnest.
-/

namespace TypeLoom.Collected

open Schema Generation

namespace Context

/-- The same context in a run that is not dry. -/
def earnest (c : Context) : Context := { c with settings := { c.settings with dryRun := false } }

variable (c : Context)

@[simp]
theorem problems_earnest : c.earnest.problems = c.problems := rfl

@[simp]
theorem document_earnest : c.earnest.document = c.document := rfl

@[simp]
theorem dryRun_earnest : c.earnest.settings.dryRun = false := rfl

@[simp]
theorem schemaInput_earnest : c.earnest.settings.schemaInput = c.settings.schemaInput := rfl

theorem outputPaths?_earnest (b : Bool) :
    c.earnest.settings.outputPaths? b = c.settings.outputPaths? b := rfl

theorem mapType_earnest (paths : OutputPaths) (l : Location) (t : TypeRef) :
    mapType c.earnest paths l t = mapType c paths l t ∧
      mapPresent c.earnest paths l t = mapPresent c paths l t := by
  have hname : mapName c.earnest = mapName c := rfl
  induction t with
  | named n => simp only [mapType, mapPresent, hname, and_self]
  | list t ih => simp only [mapType, mapPresent, ih, and_self]
  | nonNull t ih => simp only [mapType, mapPresent, ih, and_self]

theorem fileDeclarations_earnest (paths : OutputPaths) :
    fileDeclarations c.earnest paths = fileDeclarations c paths := by
  have hmap : mapType c.earnest paths = mapType c paths := by
    funext l t
    exact (c.mapType_earnest paths l t).1
  have hmember : memberOf c.earnest paths = memberOf c paths := by
    funext f
    rw [memberOf, memberOf, hmap]
  have htype : typeInterface c.earnest paths = typeInterface c paths := by
    funext t
    rw [typeInterface, typeInterface, hmember]
    rfl
  have hargument : argumentMember c.earnest paths = argumentMember c paths := by
    funext file v
    rw [argumentMember, argumentMember, hmap]
  have hresolver : resolverTypes c.earnest paths = resolverTypes c paths := by
    funext r
    rw [resolverTypes, resolverTypes, argumentsType, argumentsType, hargument, hmap]
    rfl
  have hgroup : groupDeclarations c.earnest paths = groupDeclarations c paths := by
    funext g
    rw [groupDeclarations, groupDeclarations, hresolver]
    rfl
  funext file
  rw [fileDeclarations, fileDeclarations, htype, hgroup]
  rfl

theorem emit_earnest (paths : OutputPaths) : emit c.earnest paths = emit c paths := by
  have hfile : emitFile c.earnest paths = emitFile c paths := by
    funext file
    rw [emitFile, emitFile, fileDeclarations_earnest]
    rfl
  rw [emit, emit, hfile]
  rfl

theorem emitShared_earnest (paths : OutputPaths) :
    emitShared c.earnest paths = emitShared c paths := rfl

theorem updates_earnest (paths : OutputPaths) :
    ResolverModule.updates c.earnest paths = ResolverModule.updates c paths := rfl

/-! ### Collecting -/

theorem addDocument_earnest (d : Document) : c.earnest.addDocument d = (c.addDocument d).earnest := by
  unfold addDocument
  rw [document_earnest]
  cases c.document <;> rfl

theorem addType_earnest (t : SourcedType) : c.earnest.addType t = (c.addType t).earnest := by
  unfold addType
  cases t.declaration.body.fieldedKind? with
  | none => rfl
  | some kind => cases kind <;> rfl

theorem addExtension_earnest (t : SourcedType) :
    c.earnest.addExtension t = (c.addExtension t).earnest := by
  unfold addExtension
  split <;> rfl

theorem bindRoot_earnest (r : Root) : c.earnest.bindRoot r = (c.bindRoot r).earnest := by
  have hroots : c.earnest.roots = c.roots := rfl
  unfold bindRoot
  rw [hroots]
  cases c.roots.find? (·.operation == r.operation) <;> rfl

theorem collectOutput_earnest (file : Path) (parent : String) (module : Option ModuleRequest)
    (id : FieldId) (f : Field) :
    c.earnest.collectOutput file parent module id f =
      (c.collectOutput file parent module id f).earnest := by
  unfold collectOutput
  cases classify file f <;> rfl

theorem collectRequest_earnest (file : Path) (ds : List Directive) :
    c.earnest.collectRequest file ds =
      ((c.collectRequest file ds).1.earnest, (c.collectRequest file ds).2) := by
  unfold collectRequest
  cases ds.find? (·.name == resolversDirective) with
  | none => rfl
  | some d =>
    dsimp only
    cases requestedModule file d <;> rfl

theorem collectOutputs_earnest (file : Path) (parent : String) (module : Option ModuleRequest)
    (definition : Nat) (fields : List Field) :
    c.earnest.collectOutputs file parent module definition fields =
      (c.collectOutputs file parent module definition fields).earnest :=
  List.foldl_hom earnest fun c x => (c.collectOutput_earnest file parent module _ x.1)

theorem collectFields_earnest (file : Path) (definition : Nat) (t : TypeDeclaration) :
    c.earnest.collectFields file definition t = (c.collectFields file definition t).earnest := by
  unfold collectFields
  cases t.body with
  | object _ fields =>
    dsimp only
    rw [collectRequest_earnest]
    exact collectOutputs_earnest ..
  | interface _ fields => exact c.collectOutputs_earnest ..
  | input fields => exact List.foldl_hom earnest fun _ _ => rfl
  | _ => rfl

theorem collect_earnest (definition : Nat) (x : SourcedDefinition) :
    c.earnest.collect definition x = (c.collect definition x).earnest := by
  unfold collect
  cases x.definition with
  | schema b =>
    have hmark : c.earnest.markSchemaBlock = c.markSchemaBlock.earnest := rfl
    dsimp only
    rw [hmark]
    exact List.foldl_hom earnest fun c r => c.bindRoot_earnest r
  | directive _ => rfl
  | type t =>
    dsimp only
    rw [collectFields_earnest, addType_earnest]
  | extension t =>
    dsimp only
    rw [collectFields_earnest, addExtension_earnest]

theorem validate_earnest : c.earnest.validate = c.validate.earnest := rfl

end Context

end TypeLoom.Collected
