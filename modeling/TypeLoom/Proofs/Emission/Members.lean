import TypeLoom.Proofs.Collection.Valid
import TypeLoom.Proofs.Emission.Layout

/-!
# Members of emitted interfaces

An interface has its members from one place: that of a type from the plain fields of its name, that
of a group from the names of its resolvers, that of a resolver's arguments from the arguments of one
field. Validation asks of the first two that they are distinct, wherever they were declared, and
does not look at the third. Main statement: in all that is emitted for a valid document, the members
of every interface for a type or a group are distinct, and those of all interfaces are if and only if
the arguments of every resolver field are.
-/

namespace TypeLoom

/-- The names of the members of an interface. -/
def Declaration.memberNames : Declaration → List String
  | .interface _ _ _ members => members.map (·.name)
  | .alias .. => []

namespace Schema.Document

open Collected

variable {d : Document}

/-- Fields of one type that are not repeated have different names. -/
theorem fields_nodup {t : String} (h : ∀ n, ¬d.Repeats (.field t n)) :
    ((d.classifiedFields.filter (·.parent == t)).map (·.name)).Nodup := by
  rw [List.nodup_iff_count_le_one]
  intro n
  have honce : ¬1 < ((d.classifiedFields.filter fun f => f.parent == t && f.name == n).map
    (·.location)).length := h n
  rw [List.length_map] at honce
  rw [List.count, List.countP_map, List.countP_eq_length_filter, List.filter_filter]
  refine Nat.not_lt.mp fun hlt => honce (hlt.trans_eq ?_)
  refine congrArg List.length (List.filter_congr fun f _ => ?_)
  simp [Bool.and_comm]

theorem plainFields_nodup {t : String} (h : ∀ n, ¬d.Repeats (.field t n)) :
    ((d.plainFields.filter (·.parent == t)).map (·.name)).Nodup := by
  have hall := fields_nodup h
  rw [classifiedFields, List.filter_append, List.map_append] at hall
  exact (List.nodup_append.mp hall).1

/-- Resolver fields of one type have different names, and so do their resolvers. -/
theorem resolvers_nodup {t : String} (hfields : ∀ n, ¬d.Repeats (.field t n))
    (hresolvers : ∀ n, ¬d.Repeats (.resolver t n)) :
    ((d.resolverFields.filter (·.field.parent == t)).map (·.resolver)).Nodup := by
  have hall := fields_nodup hfields
  rw [classifiedFields, List.filter_append, List.map_append] at hall
  have hnames := (List.nodup_append.mp hall).2.1
  rw [List.filter_map, List.map_map, List.Nodup, List.pairwise_map] at hnames
  rw [List.Nodup, List.pairwise_map]
  refine hnames.imp_of_mem fun {r s} hr hs hne heq => ?_
  obtain ⟨hr, hrt⟩ := List.mem_filter.mp hr
  obtain ⟨hs, hst⟩ := List.mem_filter.mp hs
  -- Different fields with one resolver name are what validation reports.
  exact hresolvers r.resolver
    ⟨r, hr, s, hs, ⟨beq_iff_eq.mp hrt, rfl⟩, ⟨beq_iff_eq.mp hst, heq.symm⟩, hne⟩

end Schema.Document

namespace Generation

open Schema Declaration Collected

variable {c : Context} {d : Document}

@[simp]
theorem memberNames_typeDeclaration (c : Context) (paths : OutputPaths) (d : Document)
    (t : SourcedType) : (typeDeclaration c paths d t).memberNames =
      (d.plainFields.filter (·.parent == t.declaration.name)).map (·.name) := by
  simp [typeDeclaration, memberNames]

@[simp]
theorem memberNames_argumentsDeclaration (c : Context) (paths : OutputPaths) (f : CollectedField) :
    (argumentsDeclaration c paths f).memberNames = f.arguments.map (·.name) := by
  unfold argumentsDeclaration
  split
  · rename_i hnone
    rw [hnone]
    rfl
  · simp [memberNames]

@[simp]
theorem memberNames_resolverDeclaration (c : Context) (paths : OutputPaths) (f : CollectedField) :
    (resolverDeclaration c paths f).memberNames = [] := rfl

@[simp]
theorem memberNames_resolversDeclaration (c : Context) (file : Path) (parent : String)
    (rs : List ResolverField) :
    (resolversDeclaration c file parent rs).memberNames = rs.map (·.resolver) := by
  simp [resolversDeclaration, memberNames]

/-- The shared file declares no interface. -/
theorem memberNames_shared (c : Context) (paths : OutputPaths) :
    ∀ e ∈ (emitShared c paths).contents.declarations, e.memberNames = [] := by
  unfold emitShared
  cases c.settings.contextImport <;> simp [memberNames, maybeType, resolverType]

/-- The resolvers of a group have different names. -/
theorem group_nodup (hc : Collects c d) (hvalid : ∀ s, ¬d.Repeats s) {file : Path}
    {g : String × List ResolverField} (hg : g ∈ (layoutIn c file).groups) :
    (g.2.map (·.resolver)).Nodup := by
  have hall := Document.resolvers_nodup (fun n => hvalid (.field g.1 n))
    fun n => hvalid (.resolver g.1 n)
  have hgroups := Grouping.holds_ofList (fun r : ResolverField => r.field.parent) (fieldsIn c file)
  rw [hgroups.get_of_mem hg, (((fieldsIn_perm hc file).filter _).map _).nodup_iff, List.filter_comm]
  exact hall.sublist (List.filter_sublist.map _)

/-- In a file, only what is declared for the arguments of a resolver field can have one member
twice. -/
theorem declarations_nodup (hc : Collects c d) (hvalid : ∀ s, ¬d.Repeats s) {paths : OutputPaths}
    {file : Path} {e : Declaration} (he : e ∈ (layoutIn c file).declarations c paths d) :
    e.memberNames.Nodup ∨
      ∃ r ∈ (layoutIn c file).groups.values, e = argumentsDeclaration c paths r.field := by
  rcases List.mem_append.mp he with he | he
  · obtain ⟨t, -, rfl⟩ := List.mem_map.mp he
    rw [memberNames_typeDeclaration]
    exact .inl (Document.plainFields_nodup fun n => hvalid (.field t.declaration.name n))
  · obtain ⟨g, hg, he⟩ := List.mem_flatMap.mp he
    rcases List.mem_append.mp he with he | he
    · obtain ⟨r, hr, he⟩ := List.mem_flatMap.mp he
      rcases List.mem_pair.mp he with rfl | rfl
      · exact .inr ⟨r, List.mem_flatMap.mpr ⟨g, hg, hr⟩, rfl⟩
      · rw [memberNames_resolverDeclaration]
        exact .inl List.nodup_nil
    · rw [List.mem_singleton.mp he, memberNames_resolversDeclaration]
      exact .inl (group_nodup hc hvalid hg)

/-- The arguments of each resolver field of a file are declared in it. -/
theorem argumentsDeclaration_mem {l : FileLayout} {r : ResolverField} (hr : r ∈ l.groups.values)
    (c : Context) (paths : OutputPaths) (d : Document) :
    argumentsDeclaration c paths r.field ∈ l.declarations c paths d := by
  obtain ⟨g, hg, hr⟩ := List.mem_flatMap.mp hr
  refine List.mem_append_right _ (List.mem_flatMap.mpr ⟨g, hg, List.mem_append_left _ ?_⟩)
  exact List.mem_flatMap.mpr ⟨r, hr, List.mem_cons_self⟩

/-- The shared file and those of declarations. -/
def emitAll (c : Context) (paths : OutputPaths) : List EmittedModule :=
  emitShared c paths :: (emit c paths).1

/-- In all that is emitted for a valid document, the members of every interface are distinct but for
those that are for the arguments of one field. So they all are if and only if no resolver field has
two arguments of one name. -/
theorem emit_members_distinct_iff (settings : Settings) (paths : OutputPaths) {d : Document}
    (hd : d.Loaded)
    (hvalid : ((Context.uncollected settings (some d)).collectDocument d).validate.problems = []) :
    (∀ m ∈ emitAll ((Context.uncollected settings (some d)).collectDocument d) paths,
        ∀ e ∈ m.contents.declarations, e.memberNames.Nodup ∨ ∃ r ∈ d.resolverFields,
          e = argumentsDeclaration ((Context.uncollected settings (some d)).collectDocument d) paths
            r.field) ∧
      ((∀ m ∈ emitAll ((Context.uncollected settings (some d)).collectDocument d) paths,
          ∀ e ∈ m.contents.declarations, e.memberNames.Nodup) ↔
        ∀ r ∈ d.resolverFields, (r.field.arguments.map (·.name)).Nodup) := by
  have hc := collects_collectDocument settings (some d) d
  have hdocument := ((Context.uncollected settings (some d)).walk_collectDocument d).document
  revert hvalid hc hdocument
  generalize (Context.uncollected settings (some d)).collectDocument d = c
  intro hvalid hc hdocument
  have hvalid := hc.not_repeats hvalid
  have hmodule : ∀ file, (moduleFor c paths file).contents.declarations =
      (layoutIn c file).declarations c paths d :=
    fun file => fileDeclarations_value hd hc paths file
  have hfields : ∀ file r, r ∈ (layoutIn c file).groups.values ↔
      r ∈ d.resolverFields ∧ r.field.file.same file = true := by
    intro file r
    rw [(layoutIn_describes hc file).fields_perm.mem_iff]
    exact List.mem_filter
  have hother : ∀ m ∈ emitAll c paths, ∀ e ∈ m.contents.declarations, e.memberNames.Nodup ∨
      ∃ r ∈ d.resolverFields, e = argumentsDeclaration c paths r.field := by
    rw [emitAll, List.forall_mem_cons, emit_eq hc hdocument, List.forall_mem_map]
    constructor
    · intro e he
      rw [memberNames_shared c paths e he]
      exact .inl List.nodup_nil
    · intro file _ e he
      refine (declarations_nodup hc hvalid (hmodule file ▸ he)).imp_right ?_
      rintro ⟨r, hr, rfl⟩
      exact ⟨r, ((hfields file r).mp hr).1, rfl⟩
  refine ⟨hother, fun h r hr => ?_, fun h m hm e he => ?_⟩
  · obtain ⟨file, hfile, hsame⟩ := Document.exists_file hd.listed hr
    have hm : moduleFor c paths file ∈ emitAll c paths := by
      rw [emitAll, emit_eq hc hdocument]
      exact List.mem_cons_of_mem _ (List.mem_map_of_mem hfile)
    have hr := argumentsDeclaration_mem ((hfields file r).mpr ⟨hr, hsame⟩) c paths d
    rw [← memberNames_argumentsDeclaration c paths]
    exact h _ hm _ (hmodule file ▸ hr)
  · obtain hdistinct | ⟨r, hr, rfl⟩ := hother m hm e he
    · exact hdistinct
    · rw [memberNames_argumentsDeclaration]
      exact h r hr

/-- A resolver field that has two arguments of one name. -/
def repeatedArgument : List (Path × String) :=
  [(⟨"schema/Query.graphql"⟩, "type Query \x7b viewer(id: ID, id: Int): String @resolve \x7d")]

/-- Nothing is reported, and an interface has one member twice. -/
theorem emit_members_of_repeated_argument :
    ∃ d, (Document.parseAll repeatedArgument).toOption = some d ∧
      ((Context.uncollected .empty (some d)).collectDocument d).validate.problems = [] ∧
      (emit ((Context.uncollected .empty (some d)).collectDocument d) twoFilePaths).2 = [] ∧
      ¬∀ m ∈ emitAll ((Context.uncollected .empty (some d)).collectDocument d) twoFilePaths,
        ∀ e ∈ m.contents.declarations, e.memberNames.Nodup := by
  have hread : ((Document.parseAll repeatedArgument).toOption.map fun d =>
      (((Context.uncollected .empty (some d)).collectDocument d).validate.problems.isEmpty,
        (emit ((Context.uncollected .empty (some d)).collectDocument d) twoFilePaths).2.isEmpty,
        decide (∀ r ∈ d.resolverFields, (r.field.arguments.map (·.name)).Nodup))) =
      some (true, true, false) := by
    decide +kernel
  obtain ⟨d, hd, hholds⟩ := Option.map_eq_some_iff.mp hread
  obtain ⟨hvalid, hholds⟩ := Prod.mk.inj hholds
  obtain ⟨hemitted, hrepeated⟩ := Prod.mk.inj hholds
  rw [List.isEmpty_iff] at hvalid hemitted
  refine ⟨d, hd, hvalid, hemitted, fun hdistinct => of_decide_eq_false hrepeated ?_⟩
  have hall := emit_members_distinct_iff .empty twoFilePaths (Document.loaded_of_toOption hd) hvalid
  exact hall.2.mp hdistinct

end Generation

end TypeLoom
