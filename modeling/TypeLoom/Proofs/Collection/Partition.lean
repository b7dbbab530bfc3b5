import Mathlib.Data.List.Nodup
import Mathlib.Data.List.Perm.Basic
import TypeLoom.Proofs.Collection.Declared
import TypeLoom.Proofs.Grouping

/-!
# Collecting loses and repeats nothing

A stretch of the walk over a document is known by what it adds to a context: fields, definitions and
extensions of types. Stretches compose, one definition adds what it declares, and so does a whole
document. Main statement: every field of a document ends in exactly one place.
-/

namespace TypeLoom.Collected

open Schema

/-- Whether a problem is that of a malformed `@resolve` directive. -/
def isRefusal : Problem → Bool
  | .directiveArgument d _ _ => d == resolveDirective
  | _ => false

/-- What is known of a field apart from its operation, which is assigned at the end of the walk. -/
def Context.place? (c : Context) (id : FieldId) : Option (String × Option ModuleRequest) :=
  (c.metadataOf? id).map fun m => (m.parent, m.module)

/-- What a stretch of the walk from `c` to `c'` adds: the fields `fs`, the type definitions `ts` and
the extensions `es`. -/
structure Walk (c c' : Context) (fs : List DeclaredField) (ts es : List SourcedType) : Prop where
  settings : c'.settings = c.settings
  document : c'.document = c.document
  plain : c'.plain = c.plain.addEach (·.parent) (fs.filterMap (·.plain?))
  resolvers : c'.resolvers = c.resolvers.addEach (·.field.parent) (fs.filterMap (·.resolver?))
  refusals : c'.problems.filter isRefusal = c.problems.filter isRefusal ++ fs.filterMap (·.problem?)
  objects : c'.objects = c.objects.addEach (·.declaration.name) (ts.filter (·.isOf .object))
  interfaces :
    c'.interfaces = c.interfaces.addEach (·.declaration.name) (ts.filter (·.isOf .interface))
  inputs : c'.inputs = c.inputs.addEach (·.declaration.name) (ts.filter (·.isOf .input))
  extensions : c'.extensions = c.extensions.addEach (·.declaration.name) es
  placed : (fs.map (·.id)).Nodup → ∀ f ∈ fs, f.source.isOutput = true →
    c'.place? f.id = some (f.parent, f.request?)
  kept : ∀ id, id ∉ fs.map (·.id) → c'.place? id = c.place? id

namespace Walk

variable {c c' c'' : Context} {fs gs : List DeclaredField} {ts us es ws : List SourcedType}

theorem refl (c : Context) : Walk c c [] [] [] := by
  constructor <;> simp

theorem trans (h : Walk c c' fs ts es) (h' : Walk c' c'' gs us ws) :
    Walk c c'' (fs ++ gs) (ts ++ us) (es ++ ws) where
  settings := h'.settings.trans h.settings
  document := h'.document.trans h.document
  plain := by rw [h'.plain, h.plain, List.filterMap_append, Grouping.addEach_append]
  resolvers := by rw [h'.resolvers, h.resolvers, List.filterMap_append, Grouping.addEach_append]
  refusals := by rw [h'.refusals, h.refusals, List.filterMap_append, List.append_assoc]
  objects := by rw [h'.objects, h.objects, List.filter_append, Grouping.addEach_append]
  interfaces := by rw [h'.interfaces, h.interfaces, List.filter_append, Grouping.addEach_append]
  inputs := by rw [h'.inputs, h.inputs, List.filter_append, Grouping.addEach_append]
  extensions := by rw [h'.extensions, h.extensions, Grouping.addEach_append]
  placed := by
    intro hnodup f hf hout
    rw [List.map_append, List.nodup_append] at hnodup
    obtain ⟨hfs, hgs, hdisjoint⟩ := hnodup
    rcases List.mem_append.mp hf with hf | hf
    · have hnew : f.id ∉ gs.map (·.id) := fun hg => hdisjoint _ (List.mem_map_of_mem hf) _ hg rfl
      rw [h'.kept f.id hnew]
      exact h.placed hfs f hf hout
    · exact h'.placed hgs f hf hout
  kept := by
    intro id hid
    rw [List.map_append, List.mem_append, not_or] at hid
    rw [h'.kept id hid.2, h.kept id hid.1]

end Walk

namespace Context

theorem metadataOf?_setMetadata (c : Context) (id id' : FieldId) (m : FieldMetadata) :
    (c.setMetadata id m).metadataOf? id' = if id' = id then some m else c.metadataOf? id' := by
  by_cases h : id' = id
  · simp [metadataOf?, setMetadata, h]
  · have hother : (c.metadata.filter (·.1 != id)).lookup id' = c.metadata.lookup id' := by
      induction c.metadata with
      | nil => rfl
      | cons e rest ih =>
        obtain ⟨j, n⟩ := e
        by_cases hj : j = id
        · have hskip : (id' == j) = false := by simp [hj, h]
          simp [hj, ih, List.lookup_cons, hj ▸ hskip]
        · simp [hj, List.lookup_cons, ih]
    have hskip : (id' == id) = false := by simp [h]
    simp [metadataOf?, setMetadata, List.lookup_cons, h, hskip, hother]

theorem place?_setMetadata (c : Context) (id id' : FieldId) (m : FieldMetadata) :
    (c.setMetadata id m).place? id' = if id' = id then some (m.parent, m.module)
      else c.place? id' := by
  unfold place?
  rw [metadataOf?_setMetadata]
  split <;> rfl

theorem place?_resolveOperations (c : Context) (id : FieldId) :
    c.resolveOperations.place? id = c.place? id := by
  simp only [place?, metadataOf?, resolveOperations]
  induction c.metadata with
  | nil => rfl
  | cons e rest ih =>
    obtain ⟨j, m⟩ := e
    simp only [List.map_cons, List.lookup_cons]
    split
    · rfl
    · exact ih

/-- Collects one field of a document. -/
def collectDeclared (c : Context) (f : DeclaredField) : Context :=
  match f.source with
  | .output g => c.collectOutput f.file f.parent f.request? f.id g
  | .input v => c.addPlain (inputField f.file f.parent f.id v)

end Context

theorem explicitResolver_eq (file : Path) (d : Directive) :
    explicitResolver file d =
      match d.arguments.find? fun a => !takes resolverNameArgument true a with
      | some a => .error (directiveProblem file d (refusal resolverNameArgument a))
      | none => .ok (texts d.arguments).getLast? := by
  unfold explicitResolver
  rw [argument_eq]
  cases d.arguments.find? fun a => !takes resolverNameArgument true a with
  | none => simp
  | some a => rfl

theorem classify_eq_fate {f : DeclaredField} {g : Field} (hf : f.source = .output g) :
    classify f.file g = f.fate := by
  simp only [classify, DeclaredField.fate, hf]
  cases hd : g.directives.find? (·.name == resolveDirective) with
  | none => rfl
  | some d =>
    have hname : d.name = resolveDirective := by simpa using List.find?_some hd
    simp only [explicitResolver_eq]
    cases d.arguments.find? fun a => !takes resolverNameArgument true a with
    | none => rfl
    | some a => simp [directiveProblem, hname]

/-- A malformed field gives a problem of its own kind. -/
theorem DeclaredField.isRefusal_of_problem? (f : DeclaredField) {p : Problem}
    (h : f.problem? = some p) : isRefusal p = true := by
  unfold problem? at h
  split at h
  · rename_i q hfate
    cases h
    unfold fate at hfate
    repeat' split at hfate
    all_goals cases hfate
    rfl
  · cases h

theorem isRefusal_requestProblems (file : Path) (ds : List Directive) :
    ∀ p ∈ requestProblems file ds, isRefusal p = false := by
  unfold requestProblems
  cases hd : ds.find? (·.name == resolversDirective) with
  | none => simp
  | some d =>
    have hname : d.name = resolversDirective := by simpa using List.find?_some hd
    have hkind : ∀ p, isRefusal (directiveProblem file d p) = false := by
      intro p
      simp [isRefusal, directiveProblem, hname, resolversDirective, resolveDirective]
    dsimp only
    split
    · exact List.forall_mem_singleton.mpr (hkind _)
    · split
      · exact List.forall_mem_singleton.mpr (hkind _)
      · simp

/-- A request is read as it is declared, and what is wrong with it is a problem. -/
theorem collectRequest_eq (c : Context) (file : Path) (ds : List Directive) :
    c.collectRequest file ds = (c.addProblems (requestProblems file ds), requestedBy file ds) := by
  unfold Context.collectRequest requestedBy requestProblems
  cases hd : ds.find? (·.name == resolversDirective) with
  | none => simp [Context.addProblems]
  | some d =>
    simp only [requestedModule, argument_eq, Option.bind_some, Option.or_none]
    cases hbad : d.arguments.find? fun a => !takes importPathArgument false a with
    | some a =>
      have hall : d.arguments.all (takes importPathArgument false) = false := by
        have hrefused := List.find?_some hbad
        refine List.all_eq_false.mpr ⟨a, List.mem_of_find?_eq_some hbad, ?_⟩
        simpa using hrefused
      simp [hall, Context.addProblem]
    | none =>
      have hall : d.arguments.all (takes importPathArgument false) = true := by
        simpa using hbad
      cases hlast : (texts d.arguments).getLast? with
      | none =>
        have hnone : texts d.arguments = [] := List.getLast?_eq_none_iff.mp hlast
        simp [hall, hnone, Context.addProblem]
      | some path =>
        have hsome : texts d.arguments ≠ [] := by
          intro hnone
          rw [hnone] at hlast
          cases hlast
        simp [hall, hsome, Context.addProblems]

namespace Context

/-- A step that adds nothing but problems of other kinds. -/
theorem walk_addProblems (c : Context) {ps : List Problem} (hps : ∀ p ∈ ps, isRefusal p = false) :
    Walk c (c.addProblems ps) [] [] [] where
  settings := rfl
  document := rfl
  plain := rfl
  resolvers := rfl
  refusals := by
    have hnone : ps.filter isRefusal = [] := by
      rw [List.filter_eq_nil_iff]
      intro p hp
      simp [hps p hp]
    simp [addProblems, List.filter_append, hnone]
  objects := rfl
  interfaces := rfl
  inputs := rfl
  extensions := rfl
  placed := by simp
  kept := fun _ _ => rfl

theorem walk_markSchemaBlock (c : Context) : Walk c c.markSchemaBlock [] [] [] := by
  constructor <;> simp [markSchemaBlock, place?, metadataOf?]

theorem walk_bindRoot (c : Context) (r : Root) : Walk c (c.bindRoot r) [] [] [] := by
  unfold bindRoot
  split
  · exact c.walk_addProblems (by simp [isRefusal])
  · constructor <;> simp [place?, metadataOf?]

theorem walk_resolveOperations (c : Context) : Walk c c.resolveOperations [] [] [] where
  settings := rfl
  document := rfl
  plain := rfl
  resolvers := rfl
  refusals := (List.append_nil _).symm
  objects := rfl
  interfaces := rfl
  inputs := rfl
  extensions := rfl
  placed := by simp
  kept := fun id _ => c.place?_resolveOperations id

/-- Notes what is known of a field apart from the field itself. -/
def note (c : Context) (f : DeclaredField) : Context :=
  match f.source with
  | .output _ => c.setMetadata f.id ⟨c.operationOf f.parent, f.parent, f.request?⟩
  | .input _ => c

theorem collectDeclared_eq (c : Context) (f : DeclaredField) :
    c.collectDeclared f =
      match f.fate with
      | .plain => (c.note f).addPlain f.collected
      | .resolver name => (c.note f).addResolver ⟨f.collected, name⟩
      | .malformed p => (c.note f).addProblem p := by
  cases hf : f.source with
  | output g =>
    cases hfate : f.fate <;>
      simp [collectDeclared, collectOutput, note, hf, classify_eq_fate hf, hfate,
        DeclaredField.collected, outputField, DeclaredField.parent]
  | input v =>
    simp [collectDeclared, note, hf, DeclaredField.fate, DeclaredField.collected, inputField,
      DeclaredField.parent]

theorem place?_note (c : Context) (f : DeclaredField) (id : FieldId) :
    (c.note f).place? id =
      if f.source.isOutput = true ∧ id = f.id then some (f.parent, f.request?)
      else c.place? id := by
  cases hf : f.source with
  | output g => simp [note, hf, place?_setMetadata, FieldSource.isOutput]
  | input v => simp [note, hf, FieldSource.isOutput]

/-- All that a field adds is itself at the place it belongs to. -/
theorem collectDeclared_adds (c : Context) (f : DeclaredField) :
    c.collectDeclared f =
      { c with
        metadata := (c.note f).metadata
        plain := c.plain.addEach (·.parent) f.plain?.toList
        resolvers := c.resolvers.addEach (·.field.parent) f.resolver?.toList
        problems := c.problems ++ f.problem?.toList } := by
  have hnote : c.note f = { c with metadata := (c.note f).metadata } := by
    unfold note
    cases f.source <;> rfl
  rw [collectDeclared_eq]
  cases hfate : f.fate with
  | plain =>
    simp only [DeclaredField.plain?, DeclaredField.resolver?, DeclaredField.problem?, hfate]
    rw [hnote]
    simp [addPlain]
  | resolver name =>
    simp only [DeclaredField.plain?, DeclaredField.resolver?, DeclaredField.problem?, hfate]
    rw [hnote]
    simp [addResolver]
  | malformed p =>
    simp only [DeclaredField.plain?, DeclaredField.resolver?, DeclaredField.problem?, hfate]
    rw [hnote]
    simp [addProblem, addProblems]

theorem walk_collectDeclared (c : Context) (f : DeclaredField) :
    Walk c (c.collectDeclared f) [f] [] [] := by
  have hsingle : ∀ {β : Type} (g : DeclaredField → Option β), [f].filterMap g = (g f).toList := by
    intro β g
    cases h : g f <;> simp [h]
  have hplace : ∀ id, (c.collectDeclared f).place? id = (c.note f).place? id := by
    intro id
    rw [collectDeclared_adds]
    rfl
  have hproblem : f.problem?.toList.filter isRefusal = f.problem?.toList := by
    rw [List.filter_eq_self]
    intro p hp
    exact f.isRefusal_of_problem? (Option.mem_toList.mp hp)
  constructor
  case placed =>
    intro _ g hg hout
    obtain rfl := List.mem_singleton.mp hg
    rw [hplace, place?_note, if_pos ⟨hout, rfl⟩]
  case kept =>
    intro id hid
    rw [hplace, place?_note, if_neg fun h => hid (by simp [h.2])]
  case refusals => rw [collectDeclared_adds, hsingle, List.filter_append, hproblem]
  all_goals rw [collectDeclared_adds]
  case plain => rw [hsingle]
  case resolvers => rw [hsingle]
  all_goals rfl

/-- The fields of a type are collected one after the other. -/
theorem collectFields_eq (c : Context) (i : Nat) (file : Path) (t : TypeDeclaration) :
    c.collectFields file i t =
      (declaredBy i file t).foldl collectDeclared (c.addProblems (typeProblems file t)) := by
  have hnone : c.addProblems [] = c := by simp [addProblems]
  unfold collectFields declaredBy typeProblems
  cases hbody : t.body with
  | object interfaces fields =>
    simp only [collectRequest_eq, collectOutputs, sources, List.zipIdx_map, List.map_map,
      List.foldl_map]
    congr 1
    funext c x
    simp [collectDeclared, DeclaredField.parent, DeclaredField.request?, hbody]
  | interface interfaces fields =>
    simp only [collectOutputs, sources, List.zipIdx_map, List.map_map, List.foldl_map, hnone]
    congr 1
    funext c x
    simp [collectDeclared, DeclaredField.parent, DeclaredField.request?, hbody]
  | input values =>
    simp only [collectInputs, sources, List.zipIdx_map, List.map_map, List.foldl_map, hnone]
    congr 1
  | _ => simp [sources, hnone]

theorem walk_foldl_collectDeclared (c : Context) (fs : List DeclaredField) :
    Walk c (fs.foldl collectDeclared c) fs [] [] := by
  induction fs generalizing c with
  | nil => exact Walk.refl c
  | cons f fs ih => exact (c.walk_collectDeclared f).trans (ih _)

theorem walk_collectFields (c : Context) (i : Nat) (file : Path) (t : TypeDeclaration) :
    Walk c (c.collectFields file i t) (declaredBy i file t) [] [] := by
  have hps : ∀ p ∈ typeProblems file t, isRefusal p = false := by
    unfold typeProblems
    split
    · exact isRefusal_requestProblems file t.directives
    · simp
  rw [collectFields_eq]
  exact (c.walk_addProblems hps).trans (walk_foldl_collectDeclared _ _)

theorem walk_foldl_bindRoot (c : Context) (rs : List Root) :
    Walk c (rs.foldl bindRoot c) [] [] [] := by
  induction rs generalizing c with
  | nil => exact Walk.refl c
  | cons r rs ih => exact (c.walk_bindRoot r).trans (ih _)

theorem walk_addType (c : Context) (x : SourcedDefinition) {t : TypeDeclaration}
    (hx : x.definition = .type t) :
    Walk c (c.addType ⟨x.file, t⟩) [] (definedType? x).toList [] := by
  unfold addType definedType?
  rw [hx]
  cases hkind : t.body.fieldedKind? with
  | none => simpa [hkind] using Walk.refl c
  | some kind =>
    cases kind <;> constructor <;> simp [hkind, SourcedType.isOf, place?, metadataOf?]

theorem walk_addExtension (c : Context) (x : SourcedDefinition) {t : TypeDeclaration}
    (hx : x.definition = .extension t) :
    Walk c (c.addExtension ⟨x.file, t⟩) [] [] (extendedType? x).toList := by
  unfold addExtension extendedType?
  rw [hx]
  by_cases hkind : t.body.fieldedKind?.isSome
  · constructor <;> simp [hkind, place?, metadataOf?]
  · simpa [hkind] using Walk.refl c

/-- A definition adds what it declares. -/
theorem walk_collect (c : Context) (i : Nat) (x : SourcedDefinition) :
    Walk c (c.collect i x) (declaredIn i x) (definedType? x).toList (extendedType? x).toList := by
  unfold collect
  cases hx : x.definition with
  | schema b =>
    have hwalk := c.walk_markSchemaBlock.trans
      (walk_foldl_bindRoot c.markSchemaBlock (blockRoots x.file b))
    simpa [declaredIn, declaration?, definedType?, extendedType?, hx] using hwalk
  | directive d =>
    simpa [declaredIn, declaration?, definedType?, extendedType?, hx] using Walk.refl c
  | type t =>
    have hwalk := (c.walk_collectFields i x.file t).trans (walk_addType _ x hx)
    simpa [declaredIn, declaration?, extendedType?, hx] using hwalk
  | extension t =>
    have hwalk := (c.walk_collectFields i x.file t).trans (walk_addExtension _ x hx)
    simpa [declaredIn, declaration?, definedType?, hx] using hwalk

theorem walk_foldl_collect (c : Context) (xs : List SourcedDefinition) (n : Nat) :
    Walk c ((xs.zipIdx n).foldl (fun c (x, i) => c.collect i x) c)
      ((xs.zipIdx n).flatMap fun (x, i) => declaredIn i x)
      (xs.filterMap definedType?) (xs.filterMap extendedType?) := by
  induction xs generalizing c n with
  | nil => exact Walk.refl c
  | cons x xs ih =>
    have hwalk := (c.walk_collect n x).trans (ih (c.collect n x) (n + 1))
    have hcons : ∀ (f : SourcedDefinition → Option SourcedType),
        (x :: xs).filterMap f = (f x).toList ++ xs.filterMap f := by
      intro f
      cases h : f x <;> simp [h]
    rw [hcons, hcons]
    exact hwalk

theorem collectDocument_eq (c : Context) (d : Document) :
    c.collectDocument d =
      (d.definitions.zipIdx.foldl (fun c (x, i) => c.collect i x) c).resolveOperations := by
  simp [collectDocument, walk, collector]

/-- A document adds what its definitions declare. -/
theorem walk_collectDocument (c : Context) (d : Document) :
    Walk c (c.collectDocument d) d.declaredFields d.definedTypes d.extendedTypes := by
  have hwalk := (walk_foldl_collect c d.definitions 0).trans (walk_resolveOperations _)
  rw [collectDocument_eq]
  simpa [Document.declaredFields, Document.definedTypes, Document.extendedTypes] using hwalk

/-- A context in which nothing has been collected yet. -/
def uncollected (settings : Generation.Settings) (loaded : Option Document) : Context :=
  { ofSettings settings with document := loaded }

end Context

/-- A context holds what a document declares and nothing else: each field and each type once, under
the name of the type, those of one name in the order of the document. -/
structure Collects (c : Context) (d : Document) : Prop where
  plain : c.plain.Holds (·.parent) d.plainFields
  resolvers : c.resolvers.Holds (·.field.parent) d.resolverFields
  objects : c.objects.Holds (·.declaration.name) (d.definedTypes.filter (·.isOf .object))
  interfaces : c.interfaces.Holds (·.declaration.name) (d.definedTypes.filter (·.isOf .interface))
  inputs : c.inputs.Holds (·.declaration.name) (d.definedTypes.filter (·.isOf .input))
  extensions : c.extensions.Holds (·.declaration.name) d.extendedTypes

/-- Problems that are known before do not change what is collected. -/
theorem collects_collectDocument_after (settings : Generation.Settings) (loaded : Option Document)
    (earlier : List Problem) (d : Document) :
    Collects (((Context.uncollected settings loaded).addProblems earlier).collectDocument d) d := by
  have hwalk := ((Context.uncollected settings loaded).addProblems earlier).walk_collectDocument d
  constructor
  case plain => exact hwalk.plain ▸ (Grouping.holds_empty _).addEach _
  case resolvers => exact hwalk.resolvers ▸ (Grouping.holds_empty _).addEach _
  case objects => exact hwalk.objects ▸ (Grouping.holds_empty _).addEach _
  case interfaces => exact hwalk.interfaces ▸ (Grouping.holds_empty _).addEach _
  case inputs => exact hwalk.inputs ▸ (Grouping.holds_empty _).addEach _
  case extensions => exact hwalk.extensions ▸ (Grouping.holds_empty _).addEach _

theorem collects_collectDocument (settings : Generation.Settings) (loaded : Option Document)
    (d : Document) : Collects ((Context.uncollected settings loaded).collectDocument d) d :=
  collects_collectDocument_after settings loaded [] d

theorem kind_of_mem_definedTypes {d : Document} {t : SourcedType} (ht : t ∈ d.definedTypes) :
    t.declaration.body.fieldedKind?.isSome = true := by
  obtain ⟨x, -, -, -, hkind⟩ := Document.mem_definedTypes ht
  exact hkind

/-- Types by kind are all types. -/
theorem kinds_perm {ts : List SourcedType}
    (hts : ∀ t ∈ ts, t.declaration.body.fieldedKind?.isSome = true) :
    (ts.filter (·.isOf .object) ++ ts.filter (·.isOf .interface) ++
      ts.filter (·.isOf .input)).Perm ts := by
  induction ts with
  | nil => simp
  | cons t ts ih =>
    obtain ⟨hkind, hrest⟩ := List.forall_mem_cons.mp hts
    obtain ⟨kind, hkind⟩ := Option.isSome_iff_exists.mp hkind
    have hstep := (ih hrest).cons t
    cases kind with
    | object => simpa [SourcedType.isOf, hkind] using hstep
    | interface =>
      rw [List.append_assoc] at hstep ⊢
      simpa [SourcedType.isOf, hkind] using List.perm_middle.trans hstep
    | input => simpa [SourcedType.isOf, hkind] using List.perm_middle.trans hstep

/-- The types of a context are all that a document defines. -/
theorem Collects.types_perm {c : Context} {d : Document} (hc : Collects c d) :
    (c.objects.values ++ c.interfaces.values ++ c.inputs.values).Perm d.definedTypes := by
  have hvalues := (hc.objects.values_perm.append hc.interfaces.values_perm).append
    hc.inputs.values_perm
  exact hvalues.trans (kinds_perm fun t ht => kind_of_mem_definedTypes ht)

theorem id_definition_of_mem {i : Nat} {x : SourcedDefinition} {f : DeclaredField}
    (hf : f ∈ declaredIn i x) : f.id.definition = i := by
  simp only [declaredIn, declaredBy, List.mem_flatMap, List.mem_map] at hf
  obtain ⟨-, -, -, -, rfl⟩ := hf
  rfl

theorem nodup_ids_declaredIn (i : Nat) (x : SourcedDefinition) :
    ((declaredIn i x).map (·.id)).Nodup := by
  cases hx : declaration? x.definition with
  | none => simp [declaredIn, hx]
  | some t =>
    have hplaces : (declaredIn i x).map (·.id) =
        ((sources t.body).zipIdx.map Prod.snd).map (FieldId.mk i) := by
      simp only [declaredIn, declaredBy, hx, Option.toList_some, List.flatMap_singleton,
        List.map_map]
      rfl
    rw [hplaces, List.zipIdx_map_snd]
    exact List.Nodup.map (fun a b h => (FieldId.mk.inj h).2) List.nodup_range'

/-- No two fields of a document have one place. -/
theorem nodup_ids (d : Document) : (d.declaredFields.map (·.id)).Nodup := by
  unfold Document.declaredFields
  rw [List.map_flatMap, List.nodup_flatMap]
  refine ⟨fun x _ => nodup_ids_declaredIn x.2 x.1, ?_⟩
  have hplaces : d.definitions.zipIdx.Pairwise fun x y => x.2 ≠ y.2 := by
    rw [← List.pairwise_map (f := Prod.snd) (R := (· ≠ ·)), List.zipIdx_map_snd]
    exact List.nodup_range'
  refine hplaces.imp ?_
  intro x y hne id hx hy
  obtain ⟨f, hf, rfl⟩ := List.mem_map.mp hx
  obtain ⟨g, hg, heq⟩ := List.mem_map.mp hy
  have hf' := id_definition_of_mem hf
  have hg' := id_definition_of_mem hg
  exact hne (hf'.symm.trans ((congrArg FieldId.definition heq).symm.trans hg'))

/-- Each field is plain, a resolver field or malformed. -/
theorem ids_perm (fs : List DeclaredField) :
    ((fs.filterMap (·.plain?)).map (·.id) ++ ((fs.filterMap (·.resolver?)).map (·.field.id) ++
      (fs.filter (·.problem?.isSome)).map (·.id))).Perm (fs.map (·.id)) := by
  induction fs with
  | nil => simp
  | cons f fs ih =>
    have hstep := ih.cons f.id
    cases hfate : f.fate with
    | plain =>
      simpa [DeclaredField.plain?, DeclaredField.resolver?, DeclaredField.problem?, hfate]
        using hstep
    | resolver name =>
      simpa [DeclaredField.plain?, DeclaredField.resolver?, DeclaredField.problem?, hfate]
        using List.perm_middle.trans hstep
    | malformed p =>
      rw [← List.append_assoc] at hstep ⊢
      simpa [DeclaredField.plain?, DeclaredField.resolver?, DeclaredField.problem?, hfate]
        using List.perm_middle.trans hstep

/-- Where the fields of a document are after collecting it. Each is in one place: among the plain
fields or the resolver fields of its type, or in the problem of a malformed directive. -/
structure Partitioned (c : Context) (d : Document) : Prop extends Collects c d where
  /-- One problem for each malformed field, in the order of the document. -/
  malformed : c.problems.filter isRefusal = d.declaredFields.filterMap (·.problem?)
  once : (c.plain.values.map (·.id) ++ (c.resolvers.values.map (·.field.id) ++
    (d.declaredFields.filter (·.problem?.isSome)).map (·.id))).Perm (d.declaredFields.map (·.id))
  ids_nodup : (d.declaredFields.map (·.id)).Nodup
  input_plain : ∀ f ∈ d.declaredFields, f.source.isOutput = false → f.plain? = some f.collected
  metadata : ∀ f ∈ d.declaredFields, f.source.isOutput = true →
    ∃ operation, c.metadataOf? f.id = some ⟨operation, f.parent, f.request?⟩

/-- Collecting a document puts each of its fields in exactly one place and each of its definitions
and extensions under its name. -/
theorem collectDocument_partitioned (settings : Generation.Settings) (loaded : Option Document)
    (d : Document) :
    Partitioned ((Context.uncollected settings loaded).collectDocument d) d := by
  have hwalk := (Context.uncollected settings loaded).walk_collectDocument d
  have hcollects := collects_collectDocument settings loaded d
  refine
    { hcollects with
      malformed := hwalk.refusals
      once := ?_
      ids_nodup := nodup_ids d
      input_plain := ?_
      metadata := ?_ }
  · refine List.Perm.trans ?_ (ids_perm d.declaredFields)
    exact (hcollects.plain.values_perm.map _).append
      ((hcollects.resolvers.values_perm.map _).append_right _)
  · intro f _ hinput
    cases hf : f.source with
    | output g => simp [hf, FieldSource.isOutput] at hinput
    | input v => simp [DeclaredField.plain?, DeclaredField.fate, hf]
  · intro f hf hout
    have hplace := hwalk.placed (nodup_ids d) f hf hout
    obtain ⟨m, hm, heq⟩ := Option.map_eq_some_iff.mp hplace
    obtain ⟨hparent, hmodule⟩ := Prod.mk.inj heq
    refine ⟨m.operation, ?_⟩
    rw [hm, ← hparent, ← hmodule]

end TypeLoom.Collected
