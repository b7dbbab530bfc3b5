import Mathlib.Data.List.Flatten
import TypeLoom.Proofs.Collection.Valid
import TypeLoom.Proofs.Declaration.Ordered
import TypeLoom.Proofs.Emission.Imports

/-!
# Distinct names in a file of declarations

A file binds the names of its types, the names derived for its resolver fields, the names of other
types and the names of the shared file. Names of different parts are told apart by how they end, so
there are three ways left for two of them to be one: two resolver fields of a file whose names are
joined to the same text, a type that is called what is derived for a field, and a type that is
called what the shared file calls its own. Main statement: where none of this happens, all names of
every file are distinct.
-/

namespace TypeLoom.Declaration

/-- All names that are bound at the top of a file. -/
def Contents.bound (m : Contents) : List String := m.declared ++ m.imported

end TypeLoom.Declaration

namespace TypeLoom.Generation

open Schema Declaration Collected

/-! ### How derived names end -/

/-- The last four characters of a text, last one first. -/
def ending (s : String) : List Char := s.toList.reverse.take 4

theorem ending_append (s : String) {t : String} (ht : 4 ≤ t.toList.length) :
    ending (s ++ t) = ending t := by
  unfold ending
  rw [String.toList_append, List.reverse_append, List.take_append_of_le_length (by simpa using ht)]

theorem ending_resolverName (file : Path) (parent field : String) (operation : Operation) :
    ending (resolverName file parent field operation) ∈ [ending "tion", ending "lver"] := by
  cases operation with
  | mutation =>
    rw [resolverName, ending_append _ (by decide)]
    decide
  | subscription =>
    rw [resolverName, ending_append _ (by decide)]
    decide
  | query =>
    rw [resolverName, ending_append _ (by decide)]
    decide

theorem ending_argumentsName (name : String) : ending (argumentsName name) = ending "Args" :=
  ending_append name (by decide)

theorem ending_resolversName (group : String) : ending (resolversName group) = ending "vers" := by
  rw [resolversName, ending_append _ (by decide)]
  decide

theorem resolverName_ne_argumentsName (file : Path) (parent field : String) (operation : Operation)
    (name : String) : resolverName file parent field operation ≠ argumentsName name := by
  intro h
  have hending := ending_resolverName file parent field operation
  rw [h, ending_argumentsName] at hending
  exact absurd hending (by decide)

theorem resolverName_ne_resolversName (file : Path) (parent field : String) (operation : Operation)
    (group : String) : resolverName file parent field operation ≠ resolversName group := by
  intro h
  have hending := ending_resolverName file parent field operation
  rw [h, ending_resolversName] at hending
  exact absurd hending (by decide)

theorem argumentsName_ne_resolversName (name group : String) :
    argumentsName name ≠ resolversName group := by
  intro h
  have hending := ending_argumentsName name
  rw [h, ending_resolversName] at hending
  exact absurd hending (by decide)

theorem argumentsName_injective {m n : String} (h : argumentsName m = argumentsName n) : m = n :=
  (String.append_left_inj _).mp h

theorem groupName_ne_empty (file : Path) {parent : String} (h : parent ≠ "") :
    groupName file parent ≠ "" := by
  unfold groupName
  dsimp only
  split
  · exact h
  · intro hempty
    exact h (String.append_eq_empty_iff.mp hempty).2

/-- No resolver has the name of the type of all resolvers. -/
theorem resolverName_ne_shared (file : Path) {parent : String} (h : parent ≠ "") (field : String)
    (operation : Operation) : resolverName file parent field operation ≠ resolverTypeName := by
  intro hshared
  cases operation with
  | mutation =>
    have hending : ending (Text.upperFirst field ++ "Mutation") = ending resolverTypeName :=
      congrArg ending hshared
    rw [ending_append _ (by decide)] at hending
    exact absurd hending (by decide)
  | subscription =>
    have hending : ending (Text.upperFirst field ++ "Subscription") = ending resolverTypeName :=
      congrArg ending hshared
    rw [ending_append _ (by decide)] at hending
    exact absurd hending (by decide)
  | query =>
    have hnone : groupName file parent ++ Text.upperFirst field = "" := by
      have hsame : groupName file parent ++ Text.upperFirst field ++ "Resolver" =
        "" ++ "Resolver" := hshared
      exact (String.append_left_inj _).mp hsame
    exact groupName_ne_empty file h (String.append_eq_empty_iff.mp hnone).1

/-! ### Names of one file -/

section

variable (c : Context) (d : Document) (file : Path)

/-- The resolver fields that a document declares in a file. -/
def fieldsOf : List ResolverField := d.resolverFields.filter (·.field.file.same file)

/-- The names that are derived for the resolver fields of a file: for each of them one for its
arguments, one for the resolver and one for the interface of its group. -/
def derivedNames : List String :=
  (fieldsOf d file).flatMap fun r => [argumentsName (resolverNameOf c r.field),
    resolverNameOf c r.field, resolversName (groupName file r.field.parent)]

/-- A document that gives no reason for a clash of names in a file. -/
structure NamesApart : Prop where
  resolvers : ((fieldsOf d file).map fun r => resolverNameOf c r.field).Nodup
  derived : ∀ t ∈ d.definedTypes, t.declaration.name ∉ derivedNames c d file
  shared : ∀ t ∈ d.definedTypes,
    t.declaration.name ≠ TypeExpr.maybeName ∧ t.declaration.name ≠ resolverTypeName

instance : Decidable (NamesApart c d file) :=
  decidable_of_iff
    (((fieldsOf d file).map fun r => resolverNameOf c r.field).Nodup ∧
      (∀ t ∈ d.definedTypes, t.declaration.name ∉ derivedNames c d file) ∧
      ∀ t ∈ d.definedTypes,
        t.declaration.name ≠ TypeExpr.maybeName ∧ t.declaration.name ≠ resolverTypeName)
    ⟨fun ⟨hresolvers, hderived, hshared⟩ => ⟨hresolvers, hderived, hshared⟩,
      fun h => ⟨h.resolvers, h.derived, h.shared⟩⟩

/-- The derived names as a file declares them, that of each group once. -/
def declaredNames : List String :=
  (fieldsOf d file).map (fun r => argumentsName (resolverNameOf c r.field)) ++
    ((fieldsOf d file).map (fun r => resolverNameOf c r.field) ++
      (layoutIn c file).groups.keys.map fun p => resolversName (groupName file p))

end

variable {c : Context} {d : Document} {file : Path} {paths : OutputPaths}

/-- A file declares its types and the names derived for its resolver fields. -/
theorem declared_perm (hd : d.Loaded) (hc : Collects c d) :
    (moduleFor c paths file).contents.declared.Perm
      ((typesIn c file).map (·.declaration.name) ++ declaredNames c d file) := by
  have harguments : ∀ f, (argumentsDeclaration c paths f).name =
      argumentsName (resolverNameOf c f) := by
    intro f
    unfold argumentsDeclaration
    split <;> rfl
  have hgroup : ∀ g : String × List ResolverField,
      (((layoutIn c file).groupDeclarations c paths g).map (·.name)) =
        g.2.flatMap (fun r => [argumentsName (resolverNameOf c r.field)] ++
          [resolverNameOf c r.field]) ++ [resolversName (groupName file g.1)] := by
    intro g
    simp only [FileLayout.groupDeclarations, List.map_append, List.map_flatMap, List.map_cons,
      List.map_nil, harguments]
    rfl
  have hfields := (layoutIn_describes hc file).fields_perm
  have hgroups : (((layoutIn c file).groups.flatMap
      ((layoutIn c file).groupDeclarations c paths)).map (·.name)).Perm
      (declaredNames c d file) := by
    rw [List.map_flatMap, declaredNames]
    simp only [hgroup]
    -- The names of fields before those of groups, then those of arguments before the others.
    refine (List.flatMap_append_perm _ _ _).symm.trans ?_
    rw [← List.append_assoc, ← List.map_eq_flatMap, Grouping.keys, List.map_map]
    refine List.Perm.append ?_ (List.Perm.refl _)
    rw [← List.flatMap_assoc]
    refine (List.flatMap_append_perm _ _ _).symm.trans ?_
    rw [← List.map_eq_flatMap, ← List.map_eq_flatMap]
    exact (hfields.map _).append (hfields.map _)
  have hvalue : (moduleFor c paths file).contents.declared =
      ((layoutIn c file).declarations c paths d).map (·.name) := by
    rw [← fileDeclarations_value hd hc]
    rfl
  rw [hvalue, FileLayout.declarations, List.map_append, List.map_map]
  exact hgroups.append_left _

theorem parent_of_mem_keys (hc : Collects c d) {p : String}
    (hp : p ∈ (layoutIn c file).groups.keys) : ∃ r ∈ fieldsOf d file, r.field.parent = p := by
  obtain ⟨r, hr, hparent⟩ := (Grouping.holds_ofList (fun r : ResolverField => r.field.parent)
    (fieldsIn c file)).mem_keys.mp hp
  exact ⟨r, (fieldsIn_perm hc file).mem_iff.mp hr, hparent⟩

theorem derived_of_declared (hc : Collects c d) {n : String} (hn : n ∈ declaredNames c d file) :
    n ∈ derivedNames c d file := by
  simp only [declaredNames, List.mem_append, List.mem_map] at hn
  rcases hn with ⟨r, hr, rfl⟩ | ⟨r, hr, rfl⟩ | ⟨p, hp, rfl⟩
  · exact List.mem_flatMap.mpr ⟨r, hr, by simp⟩
  · exact List.mem_flatMap.mpr ⟨r, hr, by simp⟩
  · obtain ⟨r, hr, rfl⟩ := parent_of_mem_keys hc hp
    exact List.mem_flatMap.mpr ⟨r, hr, by simp⟩

/-- Derived names are distinct if those of the resolvers are. -/
theorem declaredNames_nodup (hd : d.Loaded) (hc : Collects c d)
    (hresolvers : ((fieldsOf d file).map fun r => resolverNameOf c r.field).Nodup) :
    (declaredNames c d file).Nodup := by
  have harguments : ((fieldsOf d file).map fun r =>
      argumentsName (resolverNameOf c r.field)).Nodup := by
    have hmap := hresolvers.map (f := argumentsName) fun m n => argumentsName_injective
    rwa [List.map_map] at hmap
  have hgroups : ((layoutIn c file).groups.keys.map
      fun p => resolversName (groupName file p)).Nodup := by
    refine List.Nodup.map_on ?_ (layoutIn_describes hc file).parents_nodup
    intro p hp q hq h
    have hnamed : ∀ p ∈ (layoutIn c file).groups.keys, p ≠ "" := by
      intro p hp
      obtain ⟨r, hr, rfl⟩ := parent_of_mem_keys hc hp
      exact Document.parent_ne_empty hd (List.mem_of_mem_filter hr)
    exact groupName_injective (hnamed p hp) (hnamed q hq) ((String.append_left_inj _).mp h)
  refine List.nodup_append.mpr ⟨harguments, List.nodup_append.mpr ⟨hresolvers, hgroups, ?_⟩, ?_⟩
  · intro a ha b hb
    obtain ⟨r, -, rfl⟩ := List.mem_map.mp ha
    obtain ⟨p, -, rfl⟩ := List.mem_map.mp hb
    exact resolverName_ne_resolversName _ _ _ _ _
  · intro a ha b hb
    obtain ⟨r, -, rfl⟩ := List.mem_map.mp ha
    rcases List.mem_append.mp hb with hb | hb
    · obtain ⟨r', -, rfl⟩ := List.mem_map.mp hb
      exact (resolverName_ne_argumentsName _ _ _ _ _).symm
    · obtain ⟨p, -, rfl⟩ := List.mem_map.mp hb
      exact argumentsName_ne_resolversName _ _

/-- A type of the file. -/
theorem mem_typesIn (hc : Collects c d) {n : String}
    (hn : n ∈ (typesIn c file).map (·.declaration.name)) :
    ∃ t ∈ d.definedTypes, t.file.same file = true ∧ t.declaration.name = n := by
  obtain ⟨t, ht, hname⟩ := List.mem_map.mp hn
  obtain ⟨ht, hfile⟩ := List.mem_filter.mp ((typesIn_perm hc file).mem_iff.mp ht)
  exact ⟨t, ht, hfile, hname⟩

theorem declared_nodup (hd : d.Loaded) (hc : Collects c d)
    (htypes : (d.definedTypes.map (·.declaration.name)).Nodup) (hapart : NamesApart c d file) :
    (moduleFor c paths file).contents.declared.Nodup := by
  have hown : ((typesIn c file).map (·.declaration.name)).Nodup := by
    rw [((typesIn_perm hc file).map _).nodup_iff]
    exact htypes.sublist (List.filter_sublist.map _)
  rw [(declared_perm hd hc).nodup_iff]
  refine List.nodup_append.mpr ⟨hown, declaredNames_nodup hd hc hapart.resolvers, ?_⟩
  rintro n hn _ hderived rfl
  obtain ⟨t, ht, -, rfl⟩ := mem_typesIn hc hn
  exact hapart.derived t ht (derived_of_declared hc hderived)

/-! ### Imported names -/

/-- An imported name is a name of the shared file or of a type in another file. -/
theorem mem_imported {n : String} (hn : n ∈ (moduleFor c paths file).contents.imported) :
    ∃ path, path ≠ paths.typesImportPath file ∧ Met c paths (path, n) := by
  obtain ⟨i, hi, hn⟩ := List.mem_flatMap.mp hn
  obtain ⟨hdefault, hother, -, hbound, hneeds⟩ := mem_imports file hi
  rw [hdefault, Option.toList_none, List.nil_append] at hn
  obtain ⟨s, hs, rfl⟩ := List.mem_map.mp hn
  rw [hbound s hs]
  exact ⟨i.source, hother, allMet_fileDeclarations file _ (hneeds s hs)⟩

/-- A name is imported from one path only. -/
theorem Met.path_unique (hc : Collects c d) (hshared : ∀ t ∈ d.definedTypes,
      t.declaration.name ≠ TypeExpr.maybeName ∧ t.declaration.name ≠ resolverTypeName)
    {p q n : String} (hp : Met c paths (p, n)) (hq : Met c paths (q, n)) : p = q := by
  have htype : ∀ {file : Path}, c.lookup n = .found file →
      ¬(n = TypeExpr.maybeName ∨ n = resolverTypeName) := by
    intro file hfound hname
    obtain ⟨t, ht, rfl, -⟩ := lookup_found hc hfound
    exact hname.elim (hshared t ht).1 (hshared t ht).2
  cases hp with
  | shared hname =>
    cases hq with
    | shared _ => rfl
    | found hfound => exact absurd hname (htype hfound)
  | found hfound =>
    cases hq with
    | shared hname => exact absurd hname (htype hfound)
    | found hfound' => cases hfound.symm.trans hfound'; rfl

theorem imported_nodup (hc : Collects c d) (hshared : ∀ t ∈ d.definedTypes,
      t.declaration.name ≠ TypeExpr.maybeName ∧ t.declaration.name ≠ resolverTypeName) :
    (moduleFor c paths file).contents.imported.Nodup := by
  have hordered := (fileDeclarations c paths file).ordered_dependencies.erase
    (paths.typesImportPath file)
  have himported : (moduleFor c paths file).contents.imported =
      ((fileDeclarations c paths file).dependencies.erase
        (paths.typesImportPath file)).entries.flatMap (·.2) := by
    simp [moduleFor, Contents.imported, Dependencies.imports, List.flatMap_map, Specifier.bound,
      Function.comp_def]
  have hmet : ∀ e ∈ ((fileDeclarations c paths file).dependencies.erase
      (paths.typesImportPath file)).entries, ∀ n ∈ e.2, Met c paths (e.1, n) := by
    intro e he n hn
    exact allMet_fileDeclarations file _ ((Mapped.has_dependencies _).mp
      ⟨e.2, List.mem_of_mem_filter he, hn⟩)
  rw [himported, List.nodup_flatMap]
  refine ⟨fun e he => (hordered.names e he).nodup, ?_⟩
  refine hordered.paths.imp_of_mem fun he hf hlt n hn hn' => ?_
  exact ne_of_lt hlt (Met.path_unique hc hshared (hmet _ he n hn) (hmet _ hf n hn'))

/-- No derived name is a name of the shared file. -/
theorem derived_ne_shared (hd : d.Loaded) {n : String} (hn : n ∈ derivedNames c d file) :
    ¬(n = TypeExpr.maybeName ∨ n = resolverTypeName) := by
  obtain ⟨r, hr, hn⟩ := List.mem_flatMap.mp hn
  have hparent := Document.parent_ne_empty hd (List.mem_of_mem_filter hr)
  have hending := ending_resolverName r.field.file r.field.parent r.field.name
    (operationOfField c r.field)
  simp only [List.mem_cons, List.not_mem_nil, or_false] at hn
  rcases hn with rfl | rfl | rfl
  · rintro (h | h) <;> have h := (ending_argumentsName _).symm.trans (congrArg ending h) <;>
      exact absurd h (by decide)
  · rintro (h | h)
    · rw [resolverNameOf] at h
      rw [h] at hending
      exact absurd hending (by decide)
    · exact resolverName_ne_shared _ hparent _ _ h
  · rintro (h | h) <;> have h := (ending_resolversName _).symm.trans (congrArg ending h) <;>
      exact absurd h (by decide)

/-- A file imports nothing that it declares. -/
theorem declared_notMem_imported (hd : d.Loaded) (hc : Collects c d)
    (htypes : (d.definedTypes.map (·.declaration.name)).Nodup) (hapart : NamesApart c d file)
    {n : String} (hn : n ∈ (moduleFor c paths file).contents.declared) :
    n ∉ (moduleFor c paths file).contents.imported := by
  intro himported
  obtain ⟨path, hother, hmet⟩ := mem_imported himported
  rcases List.mem_append.mp ((declared_perm hd hc).mem_iff.mp hn) with hn | hn
  · obtain ⟨t, ht, hfile, rfl⟩ := mem_typesIn hc hn
    cases hmet with
    | shared hname => exact hname.elim (hapart.shared t ht).1 (hapart.shared t ht).2
    | found hfound =>
      -- The type that is imported is the one that is defined here.
      obtain ⟨u, hu, hname, rfl⟩ := lookup_found hc hfound
      obtain rfl : u = t := List.inj_on_of_nodup_map htypes hu ht hname
      exact hother (OutputPaths.typesImportPath_congr (Path.same_iff.mp hfile))
  · have hderived := derived_of_declared hc hn
    cases hmet with
    | shared hname => exact derived_ne_shared hd hderived hname
    | found hfound =>
      obtain ⟨t, ht, rfl, -⟩ := lookup_found hc hfound
      exact hapart.derived t ht hderived

theorem shared_nodup (c : Context) (paths : OutputPaths) :
    (emitShared c paths).contents.bound.Nodup := by
  unfold emitShared
  cases c.settings.contextImport with
  | none =>
    simp only [Contents.bound, Contents.declared, Contents.imported]
    decide
  | some i =>
    -- However the request context is imported, it is bound by one name.
    have hbound : (contextTypeImport i).default.toList ++
        (contextTypeImport i).named.map (·.bound) = [contextTypeName] := by
      unfold contextTypeImport
      split
      · rfl
      · split <;> rfl
    simp only [Contents.bound, Contents.declared, Contents.imported, List.flatMap_cons, hbound]
    decide

/-- In a valid document that gives no reason for a clash, all names of every emitted file are
distinct. -/
theorem emit_distinct (settings : Settings) (paths : OutputPaths) {d : Document} (hd : d.Loaded)
    (hvalid : ((Context.uncollected settings (some d)).collectDocument d).validate.problems = [])
    (hapart : ∀ file ∈ d.sourceFiles,
      NamesApart ((Context.uncollected settings (some d)).collectDocument d) d file) :
    ∀ m ∈ emitShared ((Context.uncollected settings (some d)).collectDocument d) paths ::
        (emit ((Context.uncollected settings (some d)).collectDocument d) paths).1,
      m.contents.bound.Nodup := by
  have hc := collects_collectDocument settings (some d) d
  have hdocument := ((Context.uncollected settings (some d)).walk_collectDocument d).document
  revert hvalid hapart hc hdocument
  generalize (Context.uncollected settings (some d)).collectDocument d = c
  intro hvalid hapart hc hdocument
  have htypes := Document.types_nodup fun n => hc.not_repeats hvalid (.type n)
  refine List.forall_mem_cons.mpr ⟨shared_nodup c paths, ?_⟩
  intro m hm
  rw [emit_eq hc hdocument] at hm
  obtain ⟨file, hfile, rfl⟩ := List.mem_map.mp hm
  have hfile := hapart file (List.mem_of_mem_filter hfile)
  refine List.nodup_append.mpr ⟨declared_nodup hd hc htypes hfile, imported_nodup hc hfile.shared, ?_⟩
  rintro n hn _ himported rfl
  exact declared_notMem_imported hd hc htypes hfile hn himported

theorem emit_distinct_of_two_files :
    ∃ d, (Document.parseAll twoFiles).toOption = some d ∧
      (((Context.uncollected .empty (some d)).collectDocument d).validate.problems = [] ∧
        ∀ file ∈ d.sourceFiles,
          NamesApart ((Context.uncollected .empty (some d)).collectDocument d) d file) ∧
      ∀ m ∈ emitShared ((Context.uncollected .empty (some d)).collectDocument d) twoFilePaths ::
          (emit ((Context.uncollected .empty (some d)).collectDocument d) twoFilePaths).1,
        m.contents.bound.Nodup := by
  have hread : ((Document.parseAll twoFiles).toOption.map fun d =>
      (((Context.uncollected .empty (some d)).collectDocument d).validate.problems.isEmpty,
        decide (∀ file ∈ d.sourceFiles,
          NamesApart ((Context.uncollected .empty (some d)).collectDocument d) d file))) =
      some (true, true) := by
    decide +kernel
  obtain ⟨d, hd, hholds⟩ := Option.map_eq_some_iff.mp hread
  obtain ⟨hvalid, hapart⟩ := Prod.mk.inj hholds
  rw [List.isEmpty_iff] at hvalid
  have hapart := of_decide_eq_true hapart
  exact ⟨d, hd, ⟨hvalid, hapart⟩,
    emit_distinct .empty twoFilePaths (Document.loaded_of_toOption hd) hvalid hapart⟩

end TypeLoom.Generation
