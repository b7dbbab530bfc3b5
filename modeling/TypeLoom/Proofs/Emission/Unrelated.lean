import TypeLoom.Proofs.Collection.Findings
import TypeLoom.Proofs.Emission.Imports
import TypeLoom.Proofs.Emission.Reordering
import TypeLoom.Proofs.Schema.Folded

/-!
# A file that is unrelated to the others

A file of new types that has no `schema` block and no extension adds to what is collected, under
names of its own. A root that it declares by convention is of no field of the other types, and a
name that could be resolved before means the same type as before. Main statement: with such a file
after a document that is emitted without problems, all that was emitted is emitted as before.
-/

namespace TypeLoom.Schema.Document

open Collected

/-- The names of the types that a document defines or extends. -/
def typeNames (d : Document) : List String :=
  d.definitions.filterMap fun x => (declaration? x.definition).map (·.name)

/-- A file `f` has no `schema` block and no extension, and declares only types of which `d` has
neither a definition nor an extension. -/
structure Unrelated (d f : Document) : Prop where
  block : ∀ x ∈ f.definitions, isSchemaBlock x = false
  extension : ∀ x ∈ f.definitions, Folding.extension? x.definition = none
  names : ∀ n ∈ f.typeNames, n ∉ d.typeNames

instance (d f : Document) : Decidable (Unrelated d f) :=
  decidable_of_iff ((∀ x ∈ f.definitions, isSchemaBlock x = false ∧
      (Folding.extension? x.definition).isNone = true) ∧ ∀ n ∈ f.typeNames, n ∉ d.typeNames)
    ⟨fun h => ⟨fun x hx => (h.1 x hx).1, fun x hx => Option.isNone_iff_eq_none.mp (h.1 x hx).2, h.2⟩,
      fun h => ⟨fun x hx => ⟨h.block x hx, Option.isNone_iff_eq_none.mpr (h.extension x hx)⟩,
        h.names⟩⟩

theorem mem_typeNames {d : Document} {x : SourcedDefinition} {t : TypeDeclaration}
    (hx : x ∈ d.definitions) (ht : declaration? x.definition = some t) : t.name ∈ d.typeNames :=
  List.mem_filterMap.mpr ⟨x, hx, by rw [ht]; rfl⟩

theorem name_of_type {d : Document} {t : SourcedType} (ht : t ∈ d.definedTypes) :
    t.declaration.name ∈ d.typeNames := by
  obtain ⟨x, hx, -, hdefinition, -⟩ := mem_definedTypes ht
  exact mem_typeNames hx (by rw [hdefinition]; rfl)

theorem name_of_field {d : Document} {f : DeclaredField} (hf : f ∈ d.declaredFields) :
    f.parent ∈ d.typeNames := by
  obtain ⟨x, hx, -, ht⟩ := mem_declaredFields hf
  exact mem_typeNames hx ht

/-- The fields of the definitions that come after `n` others. -/
def fieldsAfter (n : Nat) (d : Document) : List DeclaredField :=
  (d.definitions.zipIdx n).flatMap fun (x, i) => declaredIn i x

theorem declaredFields_union (d f : Document) :
    (d.union f).declaredFields = d.declaredFields ++ f.fieldsAfter d.definitions.length := by
  rw [declaredFields, union, List.zipIdx_append, List.flatMap_append, Nat.zero_add]
  rfl

theorem definedTypes_union (d f : Document) :
    (d.union f).definedTypes = d.definedTypes ++ f.definedTypes :=
  List.filterMap_append

theorem extendedTypes_union (d f : Document) :
    (d.union f).extendedTypes = d.extendedTypes ++ f.extendedTypes :=
  List.filterMap_append

theorem mem_fieldsAfter {n : Nat} {d : Document} {g : DeclaredField} (hg : g ∈ d.fieldsAfter n) :
    g.parent ∈ d.typeNames ∧ ∃ x ∈ d.definitions, g.file = x.file := by
  simp only [fieldsAfter, declaredIn, declaredBy, List.mem_flatMap, List.mem_map,
    Option.mem_toList] at hg
  obtain ⟨⟨x, i⟩, hx, t, ht, ⟨s, j⟩, -, rfl⟩ := hg
  have hmem : x ∈ d.definitions := by
    obtain ⟨-, -, heq⟩ := List.mem_zipIdx hx
    exact heq ▸ List.getElem_mem _
  exact ⟨mem_typeNames hmem ht, x, hmem, rfl⟩

theorem Unrelated.extendedTypes_eq {d f : Document} (h : Unrelated d f) : f.extendedTypes = [] := by
  refine List.filterMap_eq_nil_iff.mpr fun x hx => ?_
  have hnone := h.extension x hx
  cases hdefinition : x.definition with
  | extension e =>
    rw [hdefinition] at hnone
    cases hnone
  | _ => rw [extendedType?, hdefinition]

/-- Files that are added go to the end. -/
theorem exists_foldl_addFile (files more : List Path) :
    ∃ added, more.foldl addFile files = files ++ added ∧ added ⊆ more :=
  ⟨_, foldl_addFile_firsts files more,
    (List.filter_sublist.trans (Path.firsts_sublist more)).subset⟩

/-- All that is read from one file is of that file. -/
theorem file_of_parse {file : Path} {content : String} {f : Document}
    (h : parse file content = .ok f) :
    (∀ x ∈ f.definitions, x.file = file) ∧ ∀ g ∈ f.sourceFiles, g = file := by
  unfold parse at h
  split at h
  · cases h
    exact ⟨fun _ hx => absurd hx List.not_mem_nil, fun _ hg => absurd hg List.not_mem_nil⟩
  · split at h
    · rename_i defs _
      cases h
      unfold append
      split
      · exact ⟨fun _ hx => absurd hx List.not_mem_nil, fun _ hg => absurd hg List.not_mem_nil⟩
      · refine ⟨fun x hx => ?_, fun g hg => by simpa [addFile, empty] using hg⟩
        have hnew := (List.mem_append.mp hx).resolve_left List.not_mem_nil
        obtain ⟨y, -, rfl⟩ := List.mem_map.mp hnew
        rfl
    · cases h

end TypeLoom.Schema.Document

namespace TypeLoom.Generation

open Schema Declaration Collected

/-! ### Two contexts -/

/-- The groups `g'` are `g` and those of more values, which are of the file `path` and of names that
the document `d` does not have. -/
def Joined {α : Type} (d : Document) (path : Path) (key : α → String) (file : α → Path)
    (g g' : Grouping String α) : Prop :=
  ∃ ys, g' = g ++ Grouping.ofList key ys ∧ ∀ y ∈ ys, key y ∉ d.typeNames ∧ file y = path

namespace Joined

variable {α : Type} {d : Document} {path : Path} {key : α → String} {file : α → Path}
  {g g' : Grouping String α}

theorem of_addEach {xs ys zs : List α} (hg : g = Grouping.empty.addEach key xs)
    (hg' : g' = Grouping.empty.addEach key zs) (hzs : zs = xs ++ ys)
    (hxs : ∀ x ∈ xs, key x ∈ d.typeNames) (hys : ∀ y ∈ ys, key y ∉ d.typeNames ∧ file y = path) :
    Joined d path key file g g' := by
  refine ⟨ys, ?_, hys⟩
  rw [hg', hzs, Grouping.addEach_append, ← hg]
  refine Grouping.addEach_new fun y hy hmem => (hys y hy).1 ?_
  obtain ⟨x, hx, hkey⟩ := (Grouping.holds_ofList key xs).mem_keys.mp (hg ▸ hmem)
  exact hkey ▸ hxs x hx

variable (h : Joined d path key file g g')
include h

theorem get_eq {n : String} (hn : n ∈ d.typeNames) : g'.get n = g.get n := by
  obtain ⟨ys, rfl, hys⟩ := h
  exact Grouping.get_append_ofList fun y hy heq => (hys y hy).1 (heq ▸ hn)

theorem hasKey_eq {n : String} (hn : n ∈ d.typeNames) : g'.hasKey n = g.hasKey n := by
  obtain ⟨ys, rfl, hys⟩ := h
  exact Grouping.hasKey_append_ofList fun y hy heq => (hys y hy).1 (heq ▸ hn)

/-- Of another file there are the values that there were before. -/
theorem filter_values {other : Path} (hother : path.same other = false) :
    g'.values.filter (fun x => (file x).same other) =
      g.values.filter fun x => (file x).same other := by
  obtain ⟨ys, rfl, hys⟩ := h
  have hnone : (Grouping.ofList key ys).values.filter (fun x => (file x).same other) = [] := by
    refine List.filter_eq_nil_iff.mpr fun y hy => ?_
    rw [(hys y ((Grouping.holds_ofList key ys).mem_values.mp hy)).2, hother]
    exact Bool.false_ne_true
  rw [Grouping.values, List.flatMap_append, List.filter_append]
  exact (congrArg _ hnone).trans (List.append_nil _)

end Joined

/-- The context `c'` holds what `c` holds of the document `d`, and besides only what the file `path`
declares under other names. -/
structure Surrounds (c c' : Context) (d : Document) (path : Path) : Prop where
  collects : Collects c d
  objects : Joined d path (·.declaration.name) (·.file) c.objects c'.objects
  interfaces : Joined d path (·.declaration.name) (·.file) c.interfaces c'.interfaces
  inputs : Joined d path (·.declaration.name) (·.file) c.inputs c'.inputs
  extensions : c'.extensions = c.extensions
  plain : Joined d path (·.parent) (·.file) c.plain c'.plain
  resolvers : Joined d path (·.field.parent) (·.field.file) c.resolvers c'.resolvers
  operations : ∀ r ∈ d.resolverFields, operationOfField c' r.field = operationOfField c r.field

/-- A type that the document names belongs to the operation that it belonged to, though more types
may serve as roots. -/
theorem operationOf_joined {c c' : Context} {d : Document} {path : Path}
    (hobjects : Joined d path (·.declaration.name) (·.file) c.objects c'.objects)
    (hextensions : c'.extensions = c.extensions) (hroots : c'.roots = c.roots)
    (hblock : c'.hasSchemaBlock = c.hasSchemaBlock) {n : String} (hn : n ∈ d.typeNames) :
    c'.operationOf n = c.operationOf n := by
  have hroot : ∀ o, (c'.root? o == some n) = (c.root? o == some n) := by
    intro o
    unfold Context.root?
    rw [hroots, hblock]
    split
    · rfl
    · by_cases hname : o.conventionalRoot = n
      · rw [Context.isObjectName, Context.isObjectName, hname, hobjects.hasKey_eq hn, hextensions]
      · split
        · rfl
        · split <;> split <;> simp [hname]
  rw [Context.operationOf, Context.operationOf, hroot, hroot]

/-- An unrelated file binds no roots. -/
theorem roots_union (settings : Settings) {d f : Document} (h : Document.Unrelated d f) :
    ((Context.uncollected settings (some (d.union f))).collectDocument (d.union f)).roots =
        ((Context.uncollected settings (some d)).collectDocument d).roots ∧
      ((Context.uncollected settings (some (d.union f))).collectDocument
          (d.union f)).hasSchemaBlock =
        ((Context.uncollected settings (some d)).collectDocument d).hasSchemaBlock := by
  have hroots : f.roots = [] := List.flatMap_eq_nil_iff.mpr fun x hx => by
    have hblock := h.block x hx
    cases hx : x.definition <;> simp [isSchemaBlock, definitionRoots, hx] at hblock ⊢
  have hblock : f.definitions.any isSchemaBlock = false := by simpa using h.block
  obtain ⟨hc, hcblock⟩ := Context.roots_collectDocument settings (some d) d
  obtain ⟨hc', hcblock'⟩ :=
    Context.roots_collectDocument settings (some (d.union f)) (d.union f)
  rw [hc, hc', hcblock, hcblock', Document.roots, Document.union, List.flatMap_append,
    List.any_append, hblock, Bool.or_false]
  exact ⟨by rw [← Document.roots, ← Document.roots, hroots, List.append_nil], rfl⟩

/-- What is collected from a document and an unrelated file surrounds what is collected from the
document alone. -/
theorem surrounds_union (settings : Settings) {d f : Document} {path : Path}
    (h : Document.Unrelated d f) (hfile : ∀ x ∈ f.definitions, x.file = path) :
    Surrounds ((Context.uncollected settings (some d)).collectDocument d)
      ((Context.uncollected settings (some (d.union f))).collectDocument (d.union f)) d path := by
  have hwalk := (Context.uncollected settings (some d)).walk_collectDocument d
  have hwalk' :=
    (Context.uncollected settings (some (d.union f))).walk_collectDocument (d.union f)
  have hcollects := collects_collectDocument settings (some d) d
  rw [Document.declaredFields_union, Document.definedTypes_union, Document.extendedTypes_union,
    h.extendedTypes_eq, List.append_nil] at hwalk'
  obtain ⟨hroots, hblock⟩ := roots_union settings h
  have hoperation := fun (r : ResolverField) (hr : r ∈ d.resolverFields) =>
    operationOfField_eq settings (some d) hr
  have hoperation' := fun (r : ResolverField) (hr : r ∈ (d.union f).resolverFields) =>
    operationOfField_eq settings (some (d.union f)) hr
  generalize (Context.uncollected settings (some (d.union f))).collectDocument (d.union f) = c' at *
  generalize (Context.uncollected settings (some d)).collectDocument d = c at *
  have htypes : ∀ kind, ∀ t ∈ d.definedTypes.filter (·.isOf kind),
      t.declaration.name ∈ d.typeNames :=
    fun kind t ht => Document.name_of_type (List.mem_of_mem_filter ht)
  have hnewTypes : ∀ kind, ∀ t ∈ f.definedTypes.filter (·.isOf kind),
      t.declaration.name ∉ d.typeNames ∧ t.file = path := by
    intro kind t ht
    have ht := List.mem_of_mem_filter ht
    obtain ⟨x, hx, hsame, -⟩ := Document.mem_definedTypes ht
    exact ⟨h.names _ (Document.name_of_type ht), hsame.trans (hfile x hx)⟩
  have hnewFields : ∀ g ∈ f.fieldsAfter d.definitions.length,
      g.parent ∉ d.typeNames ∧ g.file = path := by
    intro g hg
    obtain ⟨hname, x, hx, hsame⟩ := Document.mem_fieldsAfter hg
    exact ⟨h.names _ hname, hsame.trans (hfile x hx)⟩
  have hobjects : Joined d path (·.declaration.name) (·.file) c.objects c'.objects :=
    .of_addEach hwalk.objects hwalk'.objects (List.filter_append ..) (htypes _) (hnewTypes _)
  have hextensions : c'.extensions = c.extensions := hwalk'.extensions.trans hwalk.extensions.symm
  constructor
  case collects => exact hcollects
  case objects => exact hobjects
  case interfaces =>
    exact .of_addEach hwalk.interfaces hwalk'.interfaces (List.filter_append ..) (htypes _) (hnewTypes _)
  case inputs =>
    exact .of_addEach hwalk.inputs hwalk'.inputs (List.filter_append ..) (htypes _) (hnewTypes _)
  case extensions => exact hextensions
  case plain =>
    refine .of_addEach hwalk.plain hwalk'.plain List.filterMap_append (fun x hx => ?_) fun y hy => ?_
    · obtain ⟨g, hg, hplain⟩ := List.mem_filterMap.mp hx
      rw [DeclaredField.eq_of_plain? hplain, g.collected_parent]
      exact Document.name_of_field hg
    · obtain ⟨g, hg, hplain⟩ := List.mem_filterMap.mp hy
      rw [DeclaredField.eq_of_plain? hplain, g.collected_parent, g.collected_file]
      exact hnewFields g hg
  case resolvers =>
    refine .of_addEach hwalk.resolvers hwalk'.resolvers List.filterMap_append (fun x hx => ?_) fun y hy => ?_
    · obtain ⟨g, hg, hresolver⟩ := List.mem_filterMap.mp hx
      rw [DeclaredField.eq_of_resolver? hresolver, g.collected_parent]
      exact Document.name_of_field hg
    · obtain ⟨g, hg, hresolver⟩ := List.mem_filterMap.mp hy
      rw [DeclaredField.eq_of_resolver? hresolver, g.collected_parent, g.collected_file]
      exact hnewFields g hg
  case operations =>
    intro r hr
    have hmem : r ∈ (d.union f).resolverFields := by
      rw [Document.resolverFields, Document.declaredFields_union, List.filterMap_append]
      exact List.mem_append_left _ hr
    obtain ⟨x, hx, t, ht, -, hname⟩ := Document.mem_resolverFields hr
    rw [hoperation r hr, hoperation' r hmem]
    exact operationOf_joined hobjects hextensions hroots hblock
      (hname ▸ Document.mem_typeNames hx ht)

/-! ### What is mapped again -/

/-- What is mapped without problems in one context is mapped to the same in another one. -/
def Stands {α : Type} (m m' : Mapped α) : Prop := m.problems = [] → m' = m

section

variable {α β : Type}

theorem stands_refl (m : Mapped α) : Stands m m := fun _ => rfl

theorem Stands.bind {m m' : Mapped α} {f f' : α → Mapped β} (hm : Stands m m')
    (hf : Stands (f m.value) (f' m.value)) : Stands (m >>= f) (m' >>= f') := by
  intro hnone
  obtain ⟨hfirst, hrest⟩ := List.append_eq_nil_iff.mp
    (show m.problems ++ (f m.value).problems = [] from hnone)
  have hvalue : f' m.value = f m.value := hf hrest
  rw [hm hfirst]
  change Mapped.mk _ _ _ = Mapped.mk _ _ _
  rw [hvalue]

theorem stands_mapM {f f' : α → Mapped β} {xs : List α} (h : ∀ x ∈ xs, Stands (f x) (f' x)) :
    Stands (xs.mapM f) (xs.mapM f') := by
  induction xs with
  | nil => exact stands_refl _
  | cons x xs ih =>
    obtain ⟨hx, hrest⟩ := List.forall_mem_cons.mp h
    rw [List.mapM_cons, List.mapM_cons]
    exact hx.bind ((ih hrest).bind (stands_refl _))

end

namespace Surrounds

variable {c c' : Context} {d : Document} {path : Path} (h : Surrounds c c' d path)
include h

/-- A name that was found is found in the same file. -/
theorem lookup_eq {n : String} {file : Path} (hn : c.lookup n = .found file) :
    c'.lookup n = .found file := by
  obtain ⟨t, ht, rfl, -⟩ := lookup_found h.collects hn
  have hknown := Document.name_of_type ht
  rw [← hn, Context.lookup, Context.lookup, Context.declarationsOf, Context.declarationsOf,
    h.objects.get_eq hknown, h.interfaces.get_eq hknown, h.inputs.get_eq hknown]

variable (paths : OutputPaths)

theorem stands_mapName (l : Location) (n : String) :
    Stands (mapName c paths l n) (mapName c' paths l n) := by
  intro hnone
  unfold mapName at hnone ⊢
  split
  · rfl
  · rename_i hscalar
    rw [hscalar] at hnone
    cases hlookup : c.lookup n with
    | found file => rw [h.lookup_eq hlookup]
    | ambiguous declarations => simp only [hlookup] at hnone; cases hnone
    | notFound => simp only [hlookup] at hnone; cases hnone

theorem stands_mapType (l : Location) (t : TypeRef) :
    Stands (mapType c paths l t) (mapType c' paths l t) ∧
      Stands (mapPresent c paths l t) (mapPresent c' paths l t) := by
  induction t with
  | named n =>
    simp only [mapType, mapPresent]
    exact ⟨(h.stands_mapName paths l n).bind (stands_refl _), h.stands_mapName paths l n⟩
  | list t ih =>
    simp only [mapType, mapPresent]
    exact ⟨ih.1.bind (stands_refl _), ih.1.bind (stands_refl _)⟩
  | nonNull t ih =>
    simp only [mapType, mapPresent]
    exact ⟨ih.2, ih.2⟩

theorem stands_typeInterface {t : SourcedType} (ht : t ∈ d.definedTypes) :
    Stands (typeInterface c paths t) (typeInterface c' paths t) := by
  have hbases : inheritedInterfaces c' t.declaration = inheritedInterfaces c t.declaration := by
    rw [inheritedInterfaces, inheritedInterfaces, h.extensions]
  have hmember : ∀ f, Stands (memberOf c paths f) (memberOf c' paths f) := fun f =>
    (h.stands_mapType paths f.location f.type).1.bind (stands_refl _)
  unfold typeInterface
  dsimp only
  rw [hbases, h.plain.get_eq (Document.name_of_type ht)]
  exact (stands_mapM fun n _ => h.stands_mapName paths _ n).bind <|
    (stands_mapM fun f _ => hmember f).bind (stands_refl _)

theorem resolverNameOf_eq {r : ResolverField} (hr : r ∈ d.resolverFields) :
    resolverNameOf c' r.field = resolverNameOf c r.field := by
  rw [resolverNameOf, resolverNameOf, h.operations r hr]

theorem stands_resolverTypes {r : ResolverField} (hr : r ∈ d.resolverFields) :
    Stands (resolverTypes c paths r) (resolverTypes c' paths r) := by
  have hmember : ∀ v, Stands (argumentMember c paths r.field.file v)
      (argumentMember c' paths r.field.file v) := fun v =>
    (h.stands_mapType paths _ v.type).1.bind (stands_refl _)
  have harguments : ∀ n, Stands (argumentsType c paths r.field n)
      (argumentsType c' paths r.field n) := by
    intro n
    unfold argumentsType
    split
    · exact stands_refl _
    · exact (stands_mapM fun v _ => hmember v).bind (stands_refl _)
  unfold resolverTypes
  simp only [h.resolverNameOf_eq hr]
  exact (harguments _).bind <| (h.stands_mapName paths _ _).bind <|
    (h.stands_mapType paths _ _).1.bind (stands_refl _)

theorem stands_groupDeclarations {g : String × List ResolverField}
    (hg : ∀ r ∈ g.2, r ∈ d.resolverFields) :
    Stands (groupDeclarations c paths g) (groupDeclarations c' paths g) := by
  have hinterface : groupInterface c' g.1 g.2 = groupInterface c g.1 g.2 := by
    refine congrArg _ (List.map_congr_left fun r hr => ?_)
    rw [h.resolverNameOf_eq (hg r hr)]
  unfold groupDeclarations
  rw [hinterface]
  exact (stands_mapM fun r hr => h.stands_resolverTypes paths (hg r hr)).bind (stands_refl _)

variable {file : Path} (hfile : path.same file = false)
include hfile

theorem typesIn_eq : typesIn c' file = typesIn c file := by
  rw [typesIn, typesIn, List.filter_append, List.filter_append, List.filter_append,
    List.filter_append, h.objects.filter_values hfile, h.interfaces.filter_values hfile,
    h.inputs.filter_values hfile]

theorem resolversIn_eq : resolversIn c' file = resolversIn c file := by
  rw [resolversIn, resolversIn, h.resolvers.filter_values hfile]

theorem stands_fileDeclarations :
    Stands (fileDeclarations c paths file) (fileDeclarations c' paths file) := by
  unfold fileDeclarations
  rw [h.typesIn_eq hfile, h.resolversIn_eq hfile]
  refine (stands_mapM fun t ht => h.stands_typeInterface paths ?_).bind <|
    (stands_mapM fun g hg => h.stands_groupDeclarations paths fun r hr => ?_).bind (stands_refl _)
  · exact List.mem_of_mem_filter ((typesIn_perm h.collects file).mem_iff.mp ht)
  · exact mem_resolversIn h.collects hg hr

/-- A file that is emitted without problems is emitted again. -/
theorem emitFile_eq (hnone : ∀ e ∈ emitFile c paths file, e.2 = []) :
    emitFile c' paths file = emitFile c paths file := by
  have hstands := h.stands_fileDeclarations paths hfile
  unfold emitFile at hnone ⊢
  rw [h.typesIn_eq hfile, h.resolversIn_eq hfile]
  split
  · rfl
  · rename_i hsome
    rw [if_neg hsome] at hnone
    rw [hstands (hnone _ rfl)]

end Surrounds

/-- After a document that is emitted without problems, a file that is unrelated to it changes
nothing: all modules are emitted as they were, and what comes after them is of the new file. -/
theorem emit_unrelated (settings : Settings) (paths : OutputPaths) {d f : Document} {path : Path}
    {content : String} (hf : Document.parse path content = .ok f)
    (hpath : ∀ file ∈ d.sourceFiles, file.same path = false) (h : Document.Unrelated d f)
    (hnone : (emit ((Context.uncollected settings (some d)).collectDocument d) paths).2 = []) :
    ∃ more,
      (emit ((Context.uncollected settings (some (d.union f))).collectDocument (d.union f))
          paths).1 =
        (emit ((Context.uncollected settings (some d)).collectDocument d) paths).1 ++ more ∧
      ∀ m ∈ more, m.source = some path := by
  obtain ⟨hfile, hsources⟩ := Document.file_of_parse hf
  have hsurrounds := surrounds_union settings h hfile
  have hdocument := ((Context.uncollected settings (some d)).walk_collectDocument d).document
  have hdocument' := ((Context.uncollected settings
    (some (d.union f))).walk_collectDocument (d.union f)).document
  generalize (Context.uncollected settings (some (d.union f))).collectDocument (d.union f) = c' at *
  generalize (Context.uncollected settings (some d)).collectDocument d = c at *
  obtain ⟨added, hfiles, hadded⟩ := Document.exists_foldl_addFile d.sourceFiles f.sourceFiles
  rw [emit, hdocument] at hnone
  have hsame : d.sourceFiles.filterMap (emitFile c' paths) =
      d.sourceFiles.filterMap (emitFile c paths) := by
    refine List.filterMap_congr fun file hmem => hsurrounds.emitFile_eq paths ?_ fun e he => ?_
    · exact Path.same_eq_false_iff.mpr (Path.same_eq_false_iff.mp (hpath file hmem)).symm
    · exact List.flatMap_eq_nil_iff.mp hnone e (List.mem_filterMap.mpr ⟨file, hmem, he⟩)
  refine ⟨(added.filterMap (emitFile c' paths)).map (·.1), ?_, fun m hm => ?_⟩
  · rw [emit, emit, hdocument, hdocument']
    change ((f.sourceFiles.foldl Document.addFile d.sourceFiles).filterMap _).map _ = _
    rw [hfiles, List.filterMap_append, List.map_append, hsame]
    rfl
  · obtain ⟨e, he, rfl⟩ := List.mem_map.mp hm
    obtain ⟨file, hmem, he⟩ := List.mem_filterMap.mp he
    unfold emitFile at he
    split at he
    · cases he
    · cases he
      exact congrArg some (hsources file (hadded hmem))

/-- A third file, which makes a conventional root of a type that the two others do not know. -/
def mutationFile : Path × String :=
  (⟨"schema/Mutation.graphql"⟩, "type Mutation \x7b rename(name: String!): User @resolve \x7d " ++
    "enum Role \x7b ADMIN \x7d")

theorem emit_unrelated_of_mutation :
    ∃ d f, (Document.parseAll twoFiles).toOption = some d ∧
      (Document.parse mutationFile.1 mutationFile.2).toOption = some f ∧
      ((∀ file ∈ d.sourceFiles, file.same mutationFile.1 = false) ∧ Document.Unrelated d f ∧
        (emit ((Context.uncollected .empty (some d)).collectDocument d) twoFilePaths).2 = []) ∧
      ∃ more,
        (emit ((Context.uncollected .empty (some (d.union f))).collectDocument (d.union f))
            twoFilePaths).1 =
          (emit ((Context.uncollected .empty (some d)).collectDocument d) twoFilePaths).1 ++ more ∧
        ∀ m ∈ more, m.source = some mutationFile.1 := by
  have hread : ((Document.parseAll twoFiles).toOption.bind fun d =>
      (Document.parse mutationFile.1 mutationFile.2).toOption.map fun f =>
        (d.sourceFiles.all fun file => !file.same mutationFile.1) &&
          (decide (Document.Unrelated d f) &&
            (emit ((Context.uncollected .empty (some d)).collectDocument d)
              twoFilePaths).2.isEmpty)) = some true := by
    decide +kernel
  obtain ⟨d, hd, hread⟩ := Option.bind_eq_some_iff.mp hread
  obtain ⟨f, hf, hholds⟩ := Option.map_eq_some_iff.mp hread
  rw [Bool.and_eq_true, Bool.and_eq_true, decide_eq_true_eq, List.isEmpty_iff] at hholds
  obtain ⟨hnew, hunrelated, hnone⟩ := hholds
  have hpath : ∀ file ∈ d.sourceFiles, file.same mutationFile.1 = false := by simpa using hnew
  exact ⟨d, f, hd, hf, ⟨hpath, hunrelated, hnone⟩,
    emit_unrelated .empty twoFilePaths (eq_ok_of_toOption hf) hpath hunrelated hnone⟩

end TypeLoom.Generation
