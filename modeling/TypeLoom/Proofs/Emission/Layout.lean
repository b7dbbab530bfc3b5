import Mathlib.Data.List.Perm.Basic
import TypeLoom.Generation.Emission
import TypeLoom.Proofs.Collection.Partition
import TypeLoom.Proofs.Emission.Mapped
import TypeLoom.Proofs.Schema.Loaded

/-!
# What is emitted for a document

The layout of a schema file is what the document declares in it: its types by position, and its
resolver fields by position under the types they belong to. Main statement: exactly the files that
declare something are emitted, each with the declarations of its layout, so that every resolver
field is emitted once.
-/

namespace TypeLoom

/-- The order of positions: by line, then by column. -/
def Position.Le (p q : Position) : Prop :=
  p.line < q.line ∨ p.line = q.line ∧ p.column ≤ q.column

theorem Position.isLE_compare {p q : Position} : (p.compare q).isLE = true ↔ p.Le q := by
  unfold Position.compare Position.Le
  rw [Ordering.isLE_then_iff_or, Nat.compare_eq_lt, Nat.compare_eq_eq, Nat.isLE_compare]

namespace Generation

open Schema Declaration Collected

section

variable {α : Type} (position : α → Position) (xs : List α)

theorem byPosition_perm : (byPosition position xs).Perm xs :=
  List.mergeSort_perm xs _

theorem byPosition_sorted :
    (byPosition position xs).Pairwise fun a b => (position a).Le (position b) := by
  have hsorted : (byPosition position xs).Pairwise fun a b =>
      ((position a).compare (position b)).isLE = true := by
    apply List.pairwise_mergeSort
    · intro a b c hab hbc
      rw [Position.isLE_compare, Position.Le] at *
      omega
    · intro a b
      rw [Bool.or_eq_true, Position.isLE_compare, Position.isLE_compare, Position.Le, Position.Le]
      omega
  exact hsorted.imp Position.isLE_compare.mp

end

/-- What a document declares in one file: its types, and its resolver fields under the names of the
types they belong to. -/
structure FileLayout where
  file : Path
  types : List SourcedType
  groups : Grouping String ResolverField

/-- A layout lists all that a document declares in a file, and nothing twice. Types stand by
position, and so do the fields of a group and the groups themselves. -/
structure FileLayout.Describes (l : FileLayout) (d : Document) : Prop where
  types_perm : l.types.Perm (d.definedTypes.filter (·.file.same l.file))
  types_sorted : l.types.Pairwise fun t u => t.declaration.position.Le u.declaration.position
  fields_perm : l.groups.values.Perm (d.resolverFields.filter (·.field.file.same l.file))
  parents_nodup : l.groups.keys.Nodup
  fields_nonempty : ∀ g ∈ l.groups, g.2 ≠ []
  fields_parent : ∀ g ∈ l.groups, ∀ r ∈ g.2, r.field.parent = g.1
  fields_sorted : ∀ g ∈ l.groups,
    g.2.Pairwise fun r s => r.field.position.Le s.field.position
  groups_sorted : l.groups.firsts.Pairwise fun r s => r.field.position.Le s.field.position

section

variable (c : Context) (paths : OutputPaths)

/-- The interface for a type: one member for each plain field of its name in the document. -/
def typeDeclaration (d : Document) (t : SourcedType) : Declaration :=
  .interface t.declaration.description t.declaration.name
    ((inheritedInterfaces c t.declaration).filterMap fun n =>
      (mapName c paths t.location n).value.referenceName?)
    ((d.plainFields.filter (·.parent == t.declaration.name)).map fun f =>
      ⟨f.description, f.name, (mapType c paths f.location f.type).value⟩)

/-- The type of a field's arguments: `undefined` if it has none, else one member for each. -/
def argumentsDeclaration (f : CollectedField) : Declaration :=
  if f.arguments = [] then .alias none (argumentsName (resolverNameOf c f)) [] .undefined
  else .interface none (argumentsName (resolverNameOf c f)) [] (f.arguments.map fun v =>
    ⟨v.description, v.name, (mapType c paths ⟨f.file, v.position⟩ v.type).value⟩)

/-- The type of a field's resolver. -/
def resolverDeclaration (f : CollectedField) : Declaration :=
  .alias f.description (resolverNameOf c f) [] (.reference resolverTypeName
    [(mapName c paths f.location f.parent).value, .named (argumentsName (resolverNameOf c f)),
      (mapType c paths f.location f.type).value])

/-- The interface of the resolvers of one type in a file: one member for each, by the name of the
resolver and of its type. -/
def resolversDeclaration (file : Path) (parent : String) (rs : List ResolverField) : Declaration :=
  .interface none (resolversName (groupName file parent)) [] (rs.map fun r =>
    ⟨none, r.resolver, .named (resolverNameOf c r.field)⟩)

namespace FileLayout

/-- The declarations for one group of resolver fields. -/
def groupDeclarations (l : FileLayout) (group : String × List ResolverField) : List Declaration :=
  (group.2.flatMap fun r => [argumentsDeclaration c paths r.field,
    resolverDeclaration c paths r.field]) ++ [resolversDeclaration c l.file group.1 group.2]

/-- All declarations for a file. -/
def declarations (d : Document) (l : FileLayout) : List Declaration :=
  l.types.map (typeDeclaration c paths d) ++ l.groups.flatMap (l.groupDeclarations c paths)

end FileLayout

end

end Generation

namespace Schema.Document

open Collected

variable {d : Document}

/-- Whether a document declares a type with fields or a resolver field in a file. -/
def declaresIn (d : Document) (file : Path) : Bool :=
  d.definedTypes.any (·.file.same file) || d.resolverFields.any (·.field.file.same file)

/-- A resolver field stands in a definition of the document, in its file and under its name. -/
theorem mem_resolverFields {r : ResolverField} (hr : r ∈ d.resolverFields) :
    ∃ x ∈ d.definitions, ∃ t, declaration? x.definition = some t ∧
      r.field.file = x.file ∧ r.field.parent = t.name := by
  obtain ⟨f, hf, hresolver⟩ := List.mem_filterMap.mp hr
  obtain ⟨x, hx, hfile, ht⟩ := mem_declaredFields hf
  rw [DeclaredField.eq_of_resolver? hresolver]
  refine ⟨x, hx, f.declaration, ht, ?_, ?_⟩
  · rw [DeclaredField.collected_file, hfile]
  · rw [DeclaredField.collected_parent, DeclaredField.parent]

theorem parent_ne_empty (hd : d.Loaded) {r : ResolverField} (hr : r ∈ d.resolverFields) :
    r.field.parent ≠ "" := by
  obtain ⟨x, hx, t, ht, -, hparent⟩ := mem_resolverFields hr
  have hname := hd.wellNamed x hx
  have hproper : isNameText t.name = true := by
    cases hdef : x.definition with
    | type u =>
      rw [hdef] at ht hname
      cases ht
      exact hname
    | extension u =>
      rw [hdef] at ht hname
      cases ht
      exact hname
    | _ =>
      rw [hdef] at ht
      cases ht
  intro hempty
  rw [← hparent, hempty] at hproper
  exact absurd hproper (by decide)

/-- A resolver field is declared in one of the source files. -/
theorem exists_file (hd : d.Listed) {r : ResolverField} (hr : r ∈ d.resolverFields) :
    ∃ file ∈ d.sourceFiles.filter d.declaresIn, r.field.file.same file = true := by
  obtain ⟨x, hx, t, -, hfile, -⟩ := mem_resolverFields hr
  obtain ⟨file, hlisted, hcomponents⟩ := hd.listed x hx
  have hsame : r.field.file.same file = true := Path.same_iff.mpr (hfile ▸ hcomponents.symm)
  refine ⟨file, List.mem_filter.mpr ⟨hlisted, ?_⟩, hsame⟩
  exact Bool.or_eq_true_iff.mpr (Or.inr (List.any_eq_true.mpr ⟨r, hr, hsame⟩))

/-- A type is defined in one of the source files. -/
theorem exists_file_of_type (hd : d.Listed) {t : SourcedType} (ht : t ∈ d.definedTypes) :
    ∃ file ∈ d.sourceFiles.filter d.declaresIn, t.file.same file = true := by
  obtain ⟨x, hx, hfile, -⟩ := mem_definedTypes ht
  obtain ⟨file, hlisted, hcomponents⟩ := hd.listed x hx
  have hsame : t.file.same file = true := Path.same_iff.mpr (hfile ▸ hcomponents.symm)
  refine ⟨file, List.mem_filter.mpr ⟨hlisted, ?_⟩, hsame⟩
  exact Bool.or_eq_true_iff.mpr (Or.inl (List.any_eq_true.mpr ⟨t, ht, hsame⟩))

end Schema.Document

namespace Generation

open Schema Declaration Collected

variable {c : Context} {d : Document}

theorem typesIn_perm (hc : Collects c d) (file : Path) :
    (typesIn c file).Perm (d.definedTypes.filter (·.file.same file)) :=
  (byPosition_perm _ _).trans (hc.types_perm.filter _)

/-- The resolver fields declared in a file, by position. -/
def fieldsIn (c : Context) (file : Path) : List ResolverField :=
  byPosition (·.field.position) (c.resolvers.values.filter (·.field.file.same file))

theorem fieldsIn_perm (hc : Collects c d) (file : Path) :
    (fieldsIn c file).Perm (d.resolverFields.filter (·.field.file.same file)) :=
  (byPosition_perm _ _).trans (hc.resolvers.values_perm.filter _)

/-- In one file, different types have different group names. -/
theorem groupName_injective {file : Path} {p q : String} (hp : p ≠ "") (hq : q ≠ "")
    (h : groupName file p = groupName file q) : p = q := by
  unfold groupName at h
  simp only [beq_iff_eq] at h
  -- A file that is named after one of the types has no other group of that name.
  have hlonger : ∀ {w r : String}, r ≠ "" → w ≠ w ++ r := by
    intro w r hr heq
    exact hr (by simpa using congrArg String.toList heq)
  split at h <;> split at h
  · exact h
  · rename_i hword _
    exact absurd h (hword ▸ hlonger hq)
  · rename_i hword
    exact absurd h.symm (hword ▸ hlonger hp)
  · exact (String.append_right_inj _).mp h

/-- The groups of a file are those by type, under other names. -/
theorem resolversIn_eq (hd : d.Loaded) (hc : Collects c d) (file : Path) :
    resolversIn c file =
      (Grouping.ofList (·.field.parent) (fieldsIn c file)).map fun g =>
        (groupName file g.1, g.2) := by
  have hnamed : ∀ r ∈ fieldsIn c file, r.field.parent ≠ "" := by
    intro r hr
    have hmem := (fieldsIn_perm hc file).mem_iff.mp hr
    exact Document.parent_ne_empty hd (List.mem_of_mem_filter hmem)
  apply Grouping.ofList_rename
  intro r hr s hs
  exact groupName_injective (hnamed r hr) (hnamed s hs)

/-- What is declared in a file, as it was collected. -/
def layoutIn (c : Context) (file : Path) : FileLayout where
  file := file
  types := typesIn c file
  groups := Grouping.ofList (·.field.parent) (fieldsIn c file)

theorem layoutIn_describes (hc : Collects c d) (file : Path) : (layoutIn c file).Describes d := by
  have hsorted := byPosition_sorted (fun r : ResolverField => r.field.position)
    (c.resolvers.values.filter (·.field.file.same file))
  have hgroups := Grouping.holds_ofList (fun r : ResolverField => r.field.parent) (fieldsIn c file)
  constructor
  case types_perm => exact typesIn_perm hc file
  case types_sorted => exact byPosition_sorted _ _
  case fields_perm => exact hgroups.values_perm.trans (fieldsIn_perm hc file)
  case parents_nodup => exact hgroups.keys_nodup
  case fields_nonempty => exact hgroups.nonempty
  case fields_parent =>
    intro g hg r hr
    rw [hgroups.get_of_mem hg] at hr
    exact LawfulBEq.eq_of_beq (List.mem_filter.mp hr).2
  case fields_sorted =>
    intro g hg
    rw [hgroups.get_of_mem hg]
    exact hsorted.filter _
  case groups_sorted => exact hsorted.sublist hgroups.firsts_sublist

theorem typeInterface_value (hc : Collects c d) (paths : OutputPaths) (t : SourcedType) :
    (typeInterface c paths t).value = typeDeclaration c paths d t := by
  simp [typeInterface, typeDeclaration, memberOf, hc.plain.get_eq, List.filterMap_map]

theorem argumentsType_value (c : Context) (paths : OutputPaths) (f : CollectedField) :
    (argumentsType c paths f (argumentsName (resolverNameOf c f))).value =
      argumentsDeclaration c paths f := by
  unfold argumentsType argumentsDeclaration
  simp only [List.isEmpty_iff]
  split
  · rfl
  · simp [argumentMember]

theorem resolverTypes_value (c : Context) (paths : OutputPaths) (r : ResolverField) :
    (resolverTypes c paths r).value =
      [argumentsDeclaration c paths r.field, resolverDeclaration c paths r.field] := by
  simp [resolverTypes, argumentsType_value, resolverDeclaration]

theorem groupDeclarations_value (c : Context) (paths : OutputPaths) (l : FileLayout)
    (g : String × List ResolverField) :
    (groupDeclarations c paths (groupName l.file g.1, g.2)).value =
      l.groupDeclarations c paths g := by
  simp [groupDeclarations, FileLayout.groupDeclarations, resolverTypes_value, groupInterface,
    resolversDeclaration, List.flatMap]

theorem fileDeclarations_value (hd : d.Loaded) (hc : Collects c d) (paths : OutputPaths)
    (file : Path) :
    (fileDeclarations c paths file).value = (layoutIn c file).declarations c paths d := by
  have htypes : (typesIn c file).map (fun t => (typeInterface c paths t).value) =
      (layoutIn c file).types.map (typeDeclaration c paths d) :=
    List.map_congr_left fun t _ => typeInterface_value hc paths t
  have hgroups : ((resolversIn c file).map fun g => (groupDeclarations c paths g).value).flatten =
      (layoutIn c file).groups.flatMap ((layoutIn c file).groupDeclarations c paths) := by
    rw [resolversIn_eq hd hc, List.map_map]
    exact congrArg List.flatten (List.map_congr_left fun g _ =>
      groupDeclarations_value c paths (layoutIn c file) g)
  simp only [fileDeclarations, Mapped.value_bind, Mapped.value_mapM, Mapped.value_pure]
  rw [htypes, hgroups]
  rfl

/-- What is emitted for a file. -/
def moduleFor (c : Context) (paths : OutputPaths) (file : Path) : EmittedModule where
  importPath := paths.typesImportPath file
  contents :=
    { imports := ((fileDeclarations c paths file).dependencies.erase
        (paths.typesImportPath file)).imports
      declarations := (fileDeclarations c paths file).value }
  output := paths.typesModule file
  source := some file

/-- A file is emitted if the document declares something in it. -/
theorem emitFile_eq (hc : Collects c d) (paths : OutputPaths) (file : Path) :
    emitFile c paths file =
      if d.declaresIn file then
        some (moduleFor c paths file, (fileDeclarations c paths file).problems)
      else none := by
  have hfilter : ∀ {α : Type} {xs ys : List α} {p : α → Bool}, xs.Perm (ys.filter p) →
      xs.isEmpty = !ys.any p := by
    intro α xs ys p h
    rw [h.isEmpty_eq, Bool.eq_iff_iff]
    simp [List.filter_eq_nil_iff]
  have htypes := hfilter (typesIn_perm hc file)
  have hgroups : (resolversIn c file).isEmpty = (fieldsIn c file).isEmpty := by
    rw [Bool.eq_iff_iff, List.isEmpty_iff, List.isEmpty_iff]
    exact (Grouping.holds_ofList _ _).eq_nil_iff
  rw [hfilter (fieldsIn_perm hc file)] at hgroups
  unfold emitFile Document.declaresIn
  rw [htypes, hgroups, ← Bool.not_or]
  cases d.definedTypes.any (·.file.same file) || d.resolverFields.any (·.field.file.same file) <;>
    rfl

theorem emit_eq (hc : Collects c d) (hdocument : c.document = some d) (paths : OutputPaths) :
    (emit c paths).1 = (d.sourceFiles.filter d.declaresIn).map (moduleFor c paths) := by
  simp only [emit, hdocument, Option.map_some, Option.getD_some]
  induction d.sourceFiles with
  | nil => rfl
  | cons file files ih =>
    rw [List.filterMap_cons, List.filter_cons, emitFile_eq hc]
    cases d.declaresIn file with
    | false => exact ih
    | true => exact congrArg (moduleFor c paths file :: ·) ih

/-- Elements under pairwise different files, file after file, are all elements that have one of
the files. -/
theorem flatMap_files_perm {α : Type} {file : α → Path} {files : List Path} {xs : List α}
    (hdistinct : files.Pairwise fun f g => f.components ≠ g.components)
    (hxs : ∀ x ∈ xs, ∃ f ∈ files, (file x).same f = true) :
    (files.flatMap fun f => xs.filter fun x => (file x).same f).Perm xs := by
  induction files generalizing xs with
  | nil =>
    obtain rfl : xs = [] := List.eq_nil_iff_forall_not_mem.mpr fun x hx => by simpa using hxs x hx
    simp
  | cons f files ih =>
    obtain ⟨hf, hfiles⟩ := List.pairwise_cons.mp hdistinct
    have hothers : ∀ x ∈ xs.filter fun x => !(file x).same f,
        ∃ g ∈ files, (file x).same g = true := by
      intro x hx
      obtain ⟨hx, hne⟩ := List.mem_filter.mp hx
      obtain ⟨g, hg, hsame⟩ := hxs x hx
      rcases List.mem_cons.mp hg with rfl | hg
      · simp [hsame] at hne
      · exact ⟨g, hg, hsame⟩
    have hrest : (files.flatMap fun g => xs.filter fun x => (file x).same g) =
        files.flatMap fun g => (xs.filter fun x => !(file x).same f).filter fun x =>
          (file x).same g := by
      apply List.flatMap_congr
      intro g hg
      rw [List.filter_filter]
      apply List.filter_congr
      intro x _
      cases hsame : (file x).same g with
      | false => rfl
      | true =>
        have hne : (file x).components ≠ f.components := by
          rw [Path.same_iff.mp hsame]
          exact (hf g hg).symm
        simp [Path.same_eq_false_iff.mpr hne]
    rw [List.flatMap_cons, hrest]
    exact ((ih hfiles hothers).append_left _).trans (List.filter_append_perm _ xs)

/-- The emitted files `ms` are exactly those that the layouts `ls` of a document ask for. -/
structure Emits (c : Context) (paths : OutputPaths) (d : Document) (ms : List EmittedModule)
    (ls : List FileLayout) : Prop where
  files : ls.map (·.file) = d.sourceFiles.filter d.declaresIn
  describes : ∀ l ∈ ls, l.Describes d
  declarations : ms.map (fun m => (m.source, m.contents.declarations)) =
    ls.map fun l => (some l.file, l.declarations c paths d)
  /-- Every resolver field is emitted in one file, once. -/
  once : (ls.flatMap (·.groups.values)).Perm d.resolverFields

/-- Each file that declares a type or a resolver field is emitted, with the declarations of its
layout, and nothing else is. -/
theorem emit_exact (settings : Settings) (paths : OutputPaths) {d : Document} (hd : d.Loaded) :
    ∃ ls, Emits ((Context.uncollected settings (some d)).collectDocument d) paths d
      (emit ((Context.uncollected settings (some d)).collectDocument d) paths).1 ls := by
  have hc := collects_collectDocument settings (some d) d
  have hdocument := ((Context.uncollected settings (some d)).walk_collectDocument d).document
  revert hc hdocument
  generalize (Context.uncollected settings (some d)).collectDocument d = c
  intro hc hdocument
  refine ⟨(d.sourceFiles.filter d.declaresIn).map (layoutIn c), ?_⟩
  constructor
  case files => simp [layoutIn, Function.comp_def]
  case describes =>
    intro l hl
    obtain ⟨file, -, rfl⟩ := List.mem_map.mp hl
    exact layoutIn_describes hc file
  case declarations =>
    rw [emit_eq hc hdocument, List.map_map, List.map_map]
    refine List.map_congr_left fun file _ => ?_
    exact congrArg (some file, ·) (fileDeclarations_value hd hc paths file)
  case once =>
    rw [List.flatMap_map]
    refine List.Perm.trans (List.Perm.flatMap_left _ fun file _ => ?_)
      (flatMap_files_perm (hd.listed.distinct.filter _) fun r hr =>
        Document.exists_file hd.listed hr)
    exact (layoutIn_describes hc file).fields_perm

/-- Two schema files that refer to each other and both declare resolver fields of one type. -/
def twoFiles : List (Path × String) :=
  [(⟨"schema/Query.graphql"⟩, "type Query \x7b viewer: User @resolve \x7d"),
    (⟨"schema/User.graphql"⟩, "type User \x7b name: String! \x7d " ++
      "extend type Query \x7b user(id: ID!): User @resolve(resolverName: \"find\") \x7d")]

def twoFilePaths : OutputPaths :=
  ⟨⟨"schema"⟩, ⟨"types"⟩, "app/types", some ⟨"resolvers"⟩, some "app/resolvers"⟩

theorem emit_exact_of_extension :
    ∃ d ls, (Document.parseAll twoFiles).toOption = some d ∧
      d.resolverFields.map (·.resolver) = ["viewer", "find"] ∧
      Emits ((Context.uncollected .empty (some d)).collectDocument d) twoFilePaths d
        (emit ((Context.uncollected .empty (some d)).collectDocument d) twoFilePaths).1 ls := by
  have hread : ((Document.parseAll twoFiles).toOption.map fun d =>
      d.resolverFields.map (·.resolver)) = some ["viewer", "find"] := by
    decide +kernel
  obtain ⟨d, hd, hfields⟩ := Option.map_eq_some_iff.mp hread
  obtain ⟨ls, hls⟩ := emit_exact .empty twoFilePaths (Document.loaded_of_toOption hd)
  exact ⟨d, ls, hd, hfields, hls⟩

end Generation

end TypeLoom
