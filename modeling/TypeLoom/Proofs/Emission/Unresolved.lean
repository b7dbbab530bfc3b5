import TypeLoom.Proofs.Collection.Valid
import TypeLoom.Proofs.Emission.Layout

/-!
# What emission reports

A reference is a name that is looked up where something is emitted, with the place that is blamed
if the lookup fails: the name inside the type of a field or an argument, the parent of a resolver
field, an interface that a type implements. Each is looked up for one file only, the one that
declares what it belongs to. Main statement: for a valid document, emission reports each reference
that does not resolve, as often as it stands there and at its own place, and nothing else.
-/

namespace TypeLoom.Generation

open Schema Declaration Collected

/-- The scalar types that need no definition. -/
def builtinScalars : List String := ["Boolean", "Float", "ID", "Int", "String"]

theorem builtinScalar?_isSome_iff (n : String) :
    (builtinScalar? n).isSome = true ↔ n ∈ builtinScalars := by
  unfold builtinScalar? builtinScalars
  split <;> simp_all

/-- A name that is looked up, and the place that is blamed if the lookup fails. -/
structure Reference where
  name : String
  location : Location
  deriving DecidableEq, Repr

def Reference.unresolved (r : Reference) : Problem := .unresolvedType r.name r.location

section

variable (c : Context) (d : Document)

/-- A plain field refers to its type. -/
def memberReference (f : CollectedField) : Reference := ⟨f.type.innermost, f.location⟩

def argumentReference (file : Path) (v : InputValue) : Reference :=
  ⟨v.type.innermost, ⟨file, v.position⟩⟩

/-- A resolver field refers to the types of its arguments, to its parent and to its type. -/
def resolverReferences (f : CollectedField) : List Reference :=
  f.arguments.map (argumentReference f.file) ++
    [⟨f.parent, f.location⟩, ⟨f.type.innermost, f.location⟩]

/-- A type refers to its interfaces, those of its extensions among them. -/
def interfaceReferences (t : SourcedType) : List Reference :=
  (inheritedInterfaces c t.declaration).map (⟨·, t.location⟩)

/-- What is looked up for a type: its interfaces, and the types of the plain fields of its name. -/
def definitionReferences (t : SourcedType) : List Reference :=
  interfaceReferences c t ++
    (d.plainFields.filter (·.parent == t.declaration.name)).map memberReference

/-- All references of a document: of the plain fields of the types it defines, of its resolver
fields, and of the types themselves. -/
def allReferences : List Reference :=
  (d.plainFields.filter fun f => d.definedTypes.any (f.parent == ·.declaration.name)).map
      memberReference ++
    d.resolverFields.flatMap (fun r => resolverReferences r.field) ++
    d.definedTypes.flatMap (interfaceReferences c)

/-- Whether a name is that of a scalar that needs no definition or of exactly one type. -/
def resolves (n : String) : Bool :=
  builtinScalars.contains n || (d.definedTypes.filter (·.declaration.name == n)).length == 1

/-- The problem of a reference, if it does not resolve. -/
def reportOf (r : Reference) : List Problem := if resolves d r.name then [] else [r.unresolved]

/-- Problems that report the references which do not resolve: each of them once, and nothing
else. -/
structure ReportsUnresolved (ps : List Problem) : Prop where
  each : ps.Perm (((allReferences c d).filter fun r => !resolves d r.name).map Reference.unresolved)
  silent : ps = [] ↔ ∀ r ∈ allReferences c d, resolves d r.name = true
  unambiguous : ∀ n l ls, Problem.ambiguousType n l ls ∉ ps

end

variable {c : Context} {d : Document}

theorem flatMap_reportOf (rs : List Reference) :
    rs.flatMap (reportOf d) =
      (rs.filter fun r => !resolves d r.name).map Reference.unresolved := by
  induction rs with
  | nil => rfl
  | cons r rs ih =>
    rw [List.flatMap_cons, ih, reportOf]
    cases h : resolves d r.name <;> simp [h]

/-! ### One lookup -/

/-- The definitions that a lookup finds are those of the document. -/
theorem declarationsOf_perm (hc : Collects c d) (n : String) :
    (c.declarationsOf n).Perm (d.definedTypes.filter (·.declaration.name == n)) := by
  have hkinds := (kinds_perm fun t (ht : t ∈ d.definedTypes) => kind_of_mem_definedTypes ht).filter
    (·.declaration.name == n)
  rw [List.filter_append, List.filter_append] at hkinds
  rw [Context.declarationsOf, hc.objects.get_eq, hc.interfaces.get_eq, hc.inputs.get_eq]
  exact hkinds

/-- Where no type is defined twice, a lookup reports a name if it does not resolve. -/
theorem problems_mapName (hc : Collects c d)
    (htypes : (d.definedTypes.map (·.declaration.name)).Nodup) (paths : OutputPaths)
    (r : Reference) : (mapName c paths r.location r.name).problems = reportOf d r := by
  have hlength := (declarationsOf_perm hc r.name).length_eq
  have hle : (d.definedTypes.filter (·.declaration.name == r.name)).length ≤ 1 := by
    have hcount := List.nodup_iff_count_le_one.mp htypes r.name
    rwa [List.count, List.countP_map, List.countP_eq_length_filter] at hcount
  have hscalar := builtinScalar?_isSome_iff r.name
  unfold mapName reportOf resolves
  rw [← hlength] at hle ⊢
  cases hbuiltin : builtinScalar? r.name with
  | some t =>
    rw [hbuiltin] at hscalar
    simp [hscalar.mp rfl]
  | none =>
    have hother : r.name ∉ builtinScalars := by simpa [hbuiltin] using hscalar
    unfold Context.lookup
    match hfound : c.declarationsOf r.name with
    | [] => simp [hother, Mapped.report, Reference.unresolved]
    | [t] => simp [Mapped.need]
    | t :: u :: ts =>
      rw [hfound] at hle
      simp at hle

/-- A type is looked up by the name inside it, whatever it is wrapped in. -/
theorem problems_mapType (c : Context) (paths : OutputPaths) (l : Location) (t : TypeRef) :
    (mapType c paths l t).problems = (mapName c paths l t.innermost).problems ∧
      (mapPresent c paths l t).problems = (mapName c paths l t.innermost).problems := by
  have hshared : (needShared paths TypeExpr.maybeName).problems = [] := rfl
  induction t with
  | named n => simp [mapType, mapPresent, TypeRef.innermost, hshared]
  | list item ih => simp [mapType, mapPresent, TypeRef.innermost, hshared, ih.1]
  | nonNull inner ih => exact ⟨ih.2, ih.2⟩

/-! ### The references of a file -/

section

variable (hc : Collects c d) (htypes : (d.definedTypes.map (·.declaration.name)).Nodup)
  (paths : OutputPaths)

include hc htypes

theorem problems_typed (l : Location) (t : TypeRef) :
    (mapType c paths l t).problems = reportOf d ⟨t.innermost, l⟩ := by
  rw [(problems_mapType c paths l t).1]
  exact problems_mapName hc htypes paths ⟨t.innermost, l⟩

theorem problems_typeInterface (t : SourcedType) :
    (typeInterface c paths t).problems = (definitionReferences c d t).flatMap (reportOf d) := by
  have hbase : ∀ n, (mapName c paths t.location n).problems = reportOf d ⟨n, t.location⟩ :=
    fun n => problems_mapName hc htypes paths ⟨n, t.location⟩
  have hmember : ∀ f, (memberOf c paths f).problems = reportOf d (memberReference f) := by
    intro f
    simp [memberOf, memberReference, problems_typed hc htypes]
  simp [typeInterface, definitionReferences, interfaceReferences, hbase, hmember, hc.plain.get_eq,
    List.flatMap_map]

theorem problems_argumentsType (f : CollectedField) (name : String) :
    (argumentsType c paths f name).problems =
      (f.arguments.map (argumentReference f.file)).flatMap (reportOf d) := by
  have hmember : ∀ v, (argumentMember c paths f.file v).problems =
      reportOf d (argumentReference f.file v) := by
    intro v
    simp [argumentMember, argumentReference, problems_typed hc htypes]
  unfold argumentsType
  split
  · rename_i hnone
    simp [List.isEmpty_iff.mp hnone]
  · simp [hmember, List.flatMap_map]

theorem problems_resolverTypes (r : ResolverField) :
    (resolverTypes c paths r).problems = (resolverReferences r.field).flatMap (reportOf d) := by
  have hparent := problems_mapName hc htypes paths ⟨r.field.parent, r.field.location⟩
  have hshared : (needShared paths resolverTypeName).problems = [] := rfl
  simp [resolverTypes, resolverReferences, problems_argumentsType hc htypes,
    problems_typed hc htypes, hparent, hshared]

/-- A file reports for the types and the resolver fields that are declared in it. -/
theorem problems_fileDeclarations (hd : d.Loaded) (file : Path) :
    (fileDeclarations c paths file).problems.Perm
      (((d.definedTypes.filter (·.file.same file)).flatMap (definitionReferences c d) ++
        (d.resolverFields.filter (·.field.file.same file)).flatMap
          (resolverReferences ·.field)).flatMap (reportOf d)) := by
  have hgroup : ∀ g, (groupDeclarations c paths g).problems =
      (g.2.flatMap (resolverReferences ·.field)).flatMap (reportOf d) := by
    intro g
    simp [groupDeclarations, problems_resolverTypes hc htypes, List.flatMap_assoc]
  have hgroups : ((resolversIn c file).flatMap fun g =>
        (g.2.flatMap (resolverReferences ·.field)).flatMap (reportOf d)) =
      ((Grouping.ofList (·.field.parent) (fieldsIn c file)).values.flatMap
        (resolverReferences ·.field)).flatMap (reportOf d) := by
    rw [resolversIn_eq hd hc, List.flatMap_map, Grouping.values, List.flatMap_assoc,
      List.flatMap_assoc]
    exact List.flatMap_congr fun g _ => List.flatMap_assoc
  have hfields := (layoutIn_describes hc file).fields_perm
  simp only [fileDeclarations, Mapped.problems_bind, Mapped.problems_mapM, Mapped.problems_pure,
    List.append_nil, problems_typeInterface hc htypes, hgroup, hgroups]
  rw [List.flatMap_append, ← List.flatMap_assoc]
  exact (((typesIn_perm hc file).flatMap_right _).flatMap_right _).append
    ((hfields.flatMap_right _).flatMap_right _)

end

/-! ### All files -/

theorem emit_problems (hc : Collects c d) (hdocument : c.document = some d) (paths : OutputPaths) :
    (emit c paths).2 = (d.sourceFiles.filter d.declaresIn).flatMap fun file =>
      (fileDeclarations c paths file).problems := by
  simp only [emit, hdocument, Option.map_some, Option.getD_some]
  induction d.sourceFiles with
  | nil => rfl
  | cons file files ih =>
    rw [List.filterMap_cons, List.filter_cons, emitFile_eq hc]
    cases d.declaresIn file with
    | false => exact ih
    | true => exact congrArg ((fileDeclarations c paths file).problems ++ ·) ih

/-- The elements of each of some distinct keys are those that have one of the keys. -/
theorem flatMap_keys_perm {α κ : Type} [BEq κ] [LawfulBEq κ] (key : α → κ) (xs : List α)
    {ks : List κ} (hks : ks.Nodup) :
    (ks.flatMap fun k => xs.filter (key · == k)).Perm (xs.filter fun x => ks.contains (key x)) := by
  induction ks with
  | nil => simp
  | cons k ks ih =>
    obtain ⟨hk, hks⟩ := List.nodup_cons.mp hks
    have hfirst : xs.filter (key · == k) =
        (xs.filter fun x => (k :: ks).contains (key x)).filter (key · == k) := by
      rw [List.filter_filter]
      refine List.filter_congr fun x _ => ?_
      by_cases hx : key x = k
      · simp [hx]
      · simp [beq_false_of_ne hx]
    have hothers : xs.filter (fun x => ks.contains (key x)) =
        (xs.filter fun x => (k :: ks).contains (key x)).filter (fun x => !(key x == k)) := by
      rw [List.filter_filter]
      refine List.filter_congr fun x _ => ?_
      by_cases hx : key x = k
      · simp [hx, hk]
      · simp [beq_false_of_ne hx]
    rw [List.flatMap_cons, hfirst]
    refine ((ih hks).append_left _).trans ?_
    rw [hothers]
    exact List.filter_append_perm _ _

/-- The plain fields that are looked up for a type are those of the types that are defined. -/
theorem memberReferences_perm (htypes : (d.definedTypes.map (·.declaration.name)).Nodup) :
    (d.definedTypes.flatMap fun t =>
        (d.plainFields.filter (·.parent == t.declaration.name)).map memberReference).Perm
      ((d.plainFields.filter fun f => d.definedTypes.any (f.parent == ·.declaration.name)).map
        memberReference) := by
  have hkeys := (flatMap_keys_perm (·.parent) d.plainFields htypes).map memberReference
  rw [List.flatMap_map, List.map_flatMap] at hkeys
  simpa only [List.contains_eq_any_beq, List.any_map, Function.comp_def] using hkeys

/-- All that is looked up for some file is looked up for one file, once. -/
theorem allReferences_perm (hd : d.Loaded)
    (htypes : (d.definedTypes.map (·.declaration.name)).Nodup) :
    ((d.sourceFiles.filter d.declaresIn).flatMap fun file =>
        (d.definedTypes.filter (·.file.same file)).flatMap (definitionReferences c d) ++
          (d.resolverFields.filter (·.field.file.same file)).flatMap
            (resolverReferences ·.field)).Perm (allReferences c d) := by
  have htypesOnce := flatMap_files_perm (hd.listed.distinct.filter _) fun t ht =>
    Document.exists_file_of_type hd.listed ht
  have hfieldsOnce := flatMap_files_perm (hd.listed.distinct.filter _) fun r hr =>
    Document.exists_file hd.listed hr
  have hfields := hfieldsOnce.flatMap_right (resolverReferences ·.field)
  have hmembers : (d.definedTypes.flatMap (definitionReferences c d)).Perm
      (d.definedTypes.flatMap (interfaceReferences c) ++
        (d.plainFields.filter fun f => d.definedTypes.any (f.parent == ·.declaration.name)).map
          memberReference) :=
    (List.flatMap_append_perm _ _ _).symm.trans ((memberReferences_perm htypes).append_left _)
  have htypes := (htypesOnce.flatMap_right (definitionReferences c d)).trans hmembers
  rw [List.flatMap_assoc] at htypes hfields
  refine (List.flatMap_append_perm _ _ _).symm.trans ((htypes.append hfields).trans ?_)
  -- The interfaces stand first here, and last in the list of all references.
  rw [allReferences, List.append_assoc, List.append_assoc]
  exact List.perm_append_comm.trans (by rw [List.append_assoc])

/-- Emission of a valid document reports exactly the references that do not resolve. -/
theorem emit_reports_unresolved (settings : Settings) (paths : OutputPaths) {d : Document}
    (hd : d.Loaded)
    (hvalid : ((Context.uncollected settings (some d)).collectDocument d).validate.problems = []) :
    ReportsUnresolved ((Context.uncollected settings (some d)).collectDocument d) d
      (emit ((Context.uncollected settings (some d)).collectDocument d) paths).2 := by
  have hc := collects_collectDocument settings (some d) d
  have hdocument := ((Context.uncollected settings (some d)).walk_collectDocument d).document
  revert hvalid hc hdocument
  generalize (Context.uncollected settings (some d)).collectDocument d = c
  intro hvalid hc hdocument
  have htypes := Document.types_nodup fun n => hc.not_repeats hvalid (.type n)
  have heach : (emit c paths).2.Perm
      (((allReferences c d).filter fun r => !resolves d r.name).map Reference.unresolved) := by
    rw [emit_problems hc hdocument, ← flatMap_reportOf]
    refine List.Perm.trans (List.Perm.flatMap_left _ fun file _ =>
      problems_fileDeclarations hc htypes paths hd file) ?_
    rw [← List.flatMap_assoc]
    exact (allReferences_perm hd htypes).flatMap_right _
  constructor
  case each => exact heach
  case silent =>
    rw [← List.length_eq_zero_iff, heach.length_eq, List.length_eq_zero_iff, List.map_eq_nil_iff,
      List.filter_eq_nil_iff]
    simp
  case unambiguous =>
    intro n l ls hmem
    obtain ⟨r, -, hr⟩ := List.mem_map.mp (heach.mem_iff.mp hmem)
    cases hr

/-- Two schema files in which an interface, the type of a plain field and the type of an argument of
a resolver field are not defined. -/
def unresolvedFiles : List (Path × String) :=
  [(⟨"schema/Query.graphql"⟩, "type Query implements Node \x7b viewer: Viewer \x7d"),
    (⟨"schema/User.graphql"⟩, "type User \x7b name: String! \x7d " ++
      "extend type Query \x7b find(id: Key!): [User!] @resolve \x7d")]

theorem emit_reports_unresolved_of_two_files :
    ∃ d, (Document.parseAll unresolvedFiles).toOption = some d ∧
      ((Context.uncollected .empty (some d)).collectDocument d).validate.problems = [] ∧
      (((allReferences ((Context.uncollected .empty (some d)).collectDocument d) d).filter
        fun r => !resolves d r.name).map (·.name)) = ["Viewer", "Key", "Node"] ∧
      ReportsUnresolved ((Context.uncollected .empty (some d)).collectDocument d) d
        (emit ((Context.uncollected .empty (some d)).collectDocument d) twoFilePaths).2 := by
  have hread : ((Document.parseAll unresolvedFiles).toOption.map fun d =>
      (((Context.uncollected .empty (some d)).collectDocument d).validate.problems.isEmpty,
        ((allReferences ((Context.uncollected .empty (some d)).collectDocument d) d).filter
          fun r => !resolves d r.name).map (·.name))) =
      some (true, ["Viewer", "Key", "Node"]) := by
    decide +kernel
  obtain ⟨d, hd, hholds⟩ := Option.map_eq_some_iff.mp hread
  obtain ⟨hvalid, hnames⟩ := Prod.mk.inj hholds
  rw [List.isEmpty_iff] at hvalid
  exact ⟨d, hd, hvalid, hnames,
    emit_reports_unresolved .empty twoFilePaths (Document.loaded_of_toOption hd) hvalid⟩

end TypeLoom.Generation
