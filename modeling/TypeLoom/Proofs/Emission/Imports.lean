import TypeLoom.Proofs.Emission.Layout
import TypeLoom.Proofs.Path.Relative

/-!
# Emitted files are closed under their imports

What a declaration refers to is read off it, and what a file needs is noted while its declarations
are made. Both agree: every reference is needed or declared in the same file, and every need comes
from a reference. A need is met by the shared file or by the one file that defines the type. Main
statement: every name an emitted file refers to is declared in it or imported from a file that
declares it, and nothing is imported in vain.
-/

namespace TypeLoom.Generation

open Schema Declaration Collected

section

variable (c : Context) (paths : OutputPaths)

/-- A name maps to a type without references or, if it has one definition, to itself. -/
theorem mapName_cases (l : Location) (n : String) :
    (∃ t problems, mapName c paths l n = ⟨t, [], problems⟩ ∧ t.references = [] ∧
      t.referenceName? = none) ∨
    (∃ file, c.lookup n = .found file ∧
      mapName c paths l n = ⟨.named n, [(paths.typesImportPath file, n)], []⟩) := by
  unfold mapName
  split
  · rename_i t ht
    refine Or.inl ⟨t, [], rfl, ?_⟩
    unfold builtinScalar? at ht
    split at ht <;> cases ht <;> exact ⟨rfl, rfl⟩
  · split
    · rename_i file hfound
      exact Or.inr ⟨file, hfound, rfl⟩
    · exact Or.inl ⟨_, _, rfl, rfl, rfl⟩
    · exact Or.inl ⟨_, _, rfl, rfl, rfl⟩

/-- A mapped name refers to what it needs. -/
theorem mapName_references (l : Location) (n : String) :
    (mapName c paths l n).value.references = (mapName c paths l n).names := by
  obtain ⟨t, problems, h, hnone, -⟩ | ⟨file, -, h⟩ := mapName_cases c paths l n
  · rw [h]
    exact hnone
  · rw [h]
    rfl

/-- The name of a mapped name is what it needs. -/
theorem mapName_referenceName (l : Location) (n : String) :
    (mapName c paths l n).value.referenceName?.toList = (mapName c paths l n).names := by
  obtain ⟨t, problems, h, -, hnone⟩ | ⟨file, -, h⟩ := mapName_cases c paths l n
  · rw [h, hnone]
    rfl
  · rw [h]
    rfl

@[simp]
theorem names_needShared (n : String) : (needShared paths n).names = [n] := rfl

/-- A mapped type refers to what it needs, with and without its outer wrapper. -/
theorem mapType_references (l : Location) (t : TypeRef) :
    (∀ n, n ∈ (mapType c paths l t).value.references ↔ n ∈ (mapType c paths l t).names) ∧
    (∀ n, n ∈ (mapPresent c paths l t).value.references ↔ n ∈ (mapPresent c paths l t).names) := by
  induction t with
  | named name =>
    constructor
    · intro n
      simp [mapType, TypeExpr.maybe, mapName_references, or_comm]
    · intro n
      simp [mapPresent, mapName_references]
  | list item ih =>
    constructor
    · intro n
      simp [mapType, TypeExpr.maybe, ih.1 n, or_comm]
    · intro n
      simp [mapPresent, ih.1 n]
  | nonNull inner ih =>
    simp only [mapType, mapPresent]
    exact ⟨ih.2, ih.2⟩

/-- An interface refers to what it needs. -/
theorem typeInterface_references (t : SourcedType) (n : String) :
    n ∈ (typeInterface c paths t).value.references ↔ n ∈ (typeInterface c paths t).names := by
  have hbase : ∀ m, (mapName c paths t.location m).value.referenceName? = some n ↔
      n ∈ (mapName c paths t.location m).names := by
    intro m
    rw [← mapName_referenceName, Option.mem_toList]
  have hmember : ∀ f : CollectedField, n ∈ (memberOf c paths f).value.type.references ↔
      n ∈ (memberOf c paths f).names := by
    intro f
    simpa [memberOf] using (mapType_references c paths f.location f.type).1 n
  simp [typeInterface, hbase, hmember]

theorem argumentsType_references (f : CollectedField) (name n : String) :
    n ∈ (argumentsType c paths f name).value.references ↔
      n ∈ (argumentsType c paths f name).names := by
  have hmember : ∀ v : InputValue, n ∈ (argumentMember c paths f.file v).value.type.references ↔
      n ∈ (argumentMember c paths f.file v).names := by
    intro v
    simpa [argumentMember] using (mapType_references c paths ⟨f.file, v.position⟩ v.type).1 n
  unfold argumentsType
  split
  · simp
  · simp [hmember]

theorem argumentsType_name (f : CollectedField) (name : String) :
    (argumentsType c paths f name).value.name = name := by
  unfold argumentsType
  split <;> rfl

theorem resolverTypes_references (r : ResolverField) (n : String) :
    n ∈ (resolverTypes c paths r).value.flatMap (·.references) ↔
      n ∈ (resolverTypes c paths r).names ∨ n = argumentsName (resolverNameOf c r.field) := by
  have harguments := argumentsType_references c paths r.field
    (argumentsName (resolverNameOf c r.field)) n
  have hresult := (mapType_references c paths r.field.location r.field.type).1 n
  simp [resolverTypes, TypeExpr.named, harguments, hresult, mapName_references]
  tauto

theorem mem_resolverTypes_names (r : ResolverField) :
    argumentsName (resolverNameOf c r.field) ∈ (resolverTypes c paths r).value.map (·.name) ∧
      resolverNameOf c r.field ∈ (resolverTypes c paths r).value.map (·.name) := by
  have harguments := argumentsType_name c paths r.field (argumentsName (resolverNameOf c r.field))
  simp [resolverTypes, harguments]

theorem resolverTypes_accounted (r : ResolverField) :
    Accounted (resolverTypes c paths r).names (resolverTypes c paths r).value where
  known := by
    intro n hn
    rcases (resolverTypes_references c paths r n).mp hn with hn | rfl
    · exact Or.inl hn
    · exact Or.inr (mem_resolverTypes_names c paths r).1
  used := fun n hn => (resolverTypes_references c paths r n).mpr (Or.inl hn)

theorem groupDeclarations_accounted (g : String × List ResolverField) :
    Accounted (groupDeclarations c paths g).names (groupDeclarations c paths g).value := by
  have hfields := Accounted.flatMap fun r (_ : r ∈ g.2) => resolverTypes_accounted c paths r
  have hgroup := hfields.concat (e := groupInterface c g.1 g.2) ?_
  · simpa [groupDeclarations, List.flatMap] using hgroup
  · intro n hn
    have hn' : ∃ r ∈ g.2, n = resolverNameOf c r.field := by
      simpa [groupInterface, TypeExpr.named] using hn
    obtain ⟨r, hr, rfl⟩ := hn'
    rw [List.map_flatMap, List.mem_flatMap]
    exact ⟨r, hr, (mem_resolverTypes_names c paths r).2⟩

theorem typeInterface_accounted (t : SourcedType) :
    Accounted (typeInterface c paths t).names [(typeInterface c paths t).value] where
  known := by
    intro n hn
    rw [List.flatMap_singleton] at hn
    exact Or.inl ((typeInterface_references c paths t n).mp hn)
  used := by
    intro n hn
    rw [List.flatMap_singleton]
    exact (typeInterface_references c paths t n).mpr hn

theorem fileDeclarations_accounted (file : Path) :
    Accounted (fileDeclarations c paths file).names (fileDeclarations c paths file).value := by
  have htypes := Accounted.flatMap fun t (_ : t ∈ typesIn c file) =>
    typeInterface_accounted c paths t
  have hgroups := Accounted.flatMap fun g (_ : g ∈ resolversIn c file) =>
    groupDeclarations_accounted c paths g
  rw [← List.map_eq_flatMap] at htypes
  simpa [fileDeclarations, List.flatMap] using htypes.append hgroups

/-- A need that can be met: a name of the shared file, or a type with one definition, in the file
of that definition. -/
inductive Met : String × String → Prop
  | shared {name : String} : name = TypeExpr.maybeName ∨ name = resolverTypeName →
    Met (paths.sharedImportPath, name)
  | found {name : String} {file : Path} : c.lookup name = .found file →
    Met (paths.typesImportPath file, name)

/-- Whether all needs of a mapped value can be met. -/
def AllMet {α : Type} (m : Mapped α) : Prop := ∀ need ∈ m.needs, Met c paths need

end

section

variable {c : Context} {paths : OutputPaths} {α β : Type}

theorem allMet_pure (a : α) : AllMet c paths (pure a) := by
  simp [AllMet]

theorem AllMet.bind {m : Mapped α} {f : α → Mapped β} (hm : AllMet c paths m)
    (hf : AllMet c paths (f m.value)) : AllMet c paths (m >>= f) := by
  intro need hneed
  rcases List.mem_append.mp hneed with hneed | hneed
  · exact hm need hneed
  · exact hf need hneed

theorem allMet_mapM {f : α → Mapped β} (h : ∀ x, AllMet c paths (f x)) (xs : List α) :
    AllMet c paths (xs.mapM f) := by
  intro need hneed
  rw [Mapped.needs_mapM] at hneed
  obtain ⟨x, -, hneed⟩ := List.mem_flatMap.mp hneed
  exact h x need hneed

theorem allMet_needShared {n : String} (hn : n = TypeExpr.maybeName ∨ n = resolverTypeName) :
    AllMet c paths (needShared paths n) := by
  intro need hneed
  obtain rfl := List.mem_singleton.mp hneed
  exact Met.shared hn

theorem allMet_mapName (l : Location) (n : String) : AllMet c paths (mapName c paths l n) := by
  intro need hneed
  obtain ⟨t, problems, h, -⟩ | ⟨file, hfound, h⟩ := mapName_cases c paths l n
  · rw [h] at hneed
    cases hneed
  · rw [h] at hneed
    obtain rfl := List.mem_singleton.mp hneed
    exact Met.found hfound

theorem allMet_mapType (l : Location) (t : TypeRef) :
    AllMet c paths (mapType c paths l t) ∧ AllMet c paths (mapPresent c paths l t) := by
  have hmaybe : AllMet c paths (needShared paths TypeExpr.maybeName) :=
    allMet_needShared (Or.inl rfl)
  induction t with
  | named name =>
    have hname : AllMet c paths (mapName c paths l name) := allMet_mapName l name
    simp only [mapType, mapPresent]
    exact ⟨hname.bind (hmaybe.bind (allMet_pure _)), hname⟩
  | list item ih =>
    simp only [mapType, mapPresent]
    exact ⟨ih.1.bind (hmaybe.bind (allMet_pure _)), ih.1.bind (allMet_pure _)⟩
  | nonNull inner ih =>
    simp only [mapType, mapPresent]
    exact ⟨ih.2, ih.2⟩

theorem allMet_typeInterface (t : SourcedType) : AllMet c paths (typeInterface c paths t) := by
  have hbase : ∀ n, AllMet c paths (mapName c paths t.location n) := allMet_mapName t.location
  have hmember : ∀ f, AllMet c paths (memberOf c paths f) := fun f =>
    (allMet_mapType f.location f.type).1.bind (allMet_pure _)
  exact (allMet_mapM hbase _).bind ((allMet_mapM hmember _).bind (allMet_pure _))

theorem allMet_argumentsType (f : CollectedField) (name : String) :
    AllMet c paths (argumentsType c paths f name) := by
  have hmember : ∀ v, AllMet c paths (argumentMember c paths f.file v) := fun v =>
    (allMet_mapType _ v.type).1.bind (allMet_pure _)
  unfold argumentsType
  split
  · exact allMet_pure _
  · exact (allMet_mapM hmember _).bind (allMet_pure _)

theorem allMet_resolverTypes (r : ResolverField) : AllMet c paths (resolverTypes c paths r) :=
  (allMet_argumentsType _ _).bind <| (allMet_mapName _ _).bind <|
    (allMet_mapType _ _).1.bind <| (allMet_needShared (Or.inr rfl)).bind (allMet_pure _)

theorem allMet_fileDeclarations (file : Path) : AllMet c paths (fileDeclarations c paths file) := by
  have hgroup : ∀ g, AllMet c paths (groupDeclarations c paths g) := fun g =>
    (allMet_mapM allMet_resolverTypes g.2).bind (allMet_pure _)
  exact (allMet_mapM allMet_typeInterface _).bind <|
    (allMet_mapM hgroup _).bind (allMet_pure _)

end

section

variable {c : Context} {d : Document} {paths : OutputPaths}

theorem lookup_found (hc : Collects c d) {n : String} {file : Path} (h : c.lookup n = .found file) :
    ∃ t ∈ d.definedTypes, t.declaration.name = n ∧ t.file = file := by
  unfold Context.lookup at h
  split at h
  · cases h
  · rename_i t hone
    cases h
    have ht : t ∈ c.declarationsOf n := hone ▸ List.mem_singleton_self t
    rw [Context.declarationsOf, hc.objects.get_eq, hc.interfaces.get_eq, hc.inputs.get_eq] at ht
    simp only [List.mem_append, List.mem_filter, beq_iff_eq] at ht
    have hdefined : t ∈ d.definedTypes ∧ t.declaration.name = n := by tauto
    exact ⟨t, hdefined.1, hdefined.2, rfl⟩
  · cases h

theorem declared_of_type (hc : Collects c d) {t : SourcedType} (ht : t ∈ d.definedTypes)
    {file : Path} (hfile : t.file.same file = true) :
    t.declaration.name ∈ (moduleFor c paths file).contents.declared := by
  have hin : t ∈ typesIn c file := by
    rw [(typesIn_perm hc file).mem_iff, List.mem_filter]
    exact ⟨ht, hfile⟩
  have hname : (typeInterface c paths t).value.name = t.declaration.name := rfl
  simp only [moduleFor, Contents.declared, fileDeclarations, Mapped.value_bind, Mapped.value_mapM,
    Mapped.value_pure, List.map_append, List.map_map]
  exact List.mem_append_left _ (List.mem_map.mpr ⟨t, hin, hname⟩)

/-- A file imports what its declarations need from elsewhere. -/
theorem mem_imports (file : Path) {i : Import} (hi : i ∈ (moduleFor c paths file).contents.imports) :
    i.default = none ∧ i.source ≠ paths.typesImportPath file ∧ i.named ≠ [] ∧
      (∀ s ∈ i.named, s.bound = s.name) ∧
      ∀ s ∈ i.named, (i.source, s.name) ∈ (fileDeclarations c paths file).needs := by
  have htight := (fileDeclarations c paths file).tight_dependencies
  obtain ⟨⟨path, names⟩, he, rfl⟩ := List.mem_map.mp hi
  obtain ⟨he, hother⟩ := List.mem_filter.mp he
  refine ⟨rfl, by simpa using hother, by simpa using htight _ he, ?_, ?_⟩
  · intro s hs
    obtain ⟨n, hn, rfl⟩ := List.mem_map.mp hs
    rfl
  · intro s hs
    obtain ⟨n, hn, rfl⟩ := List.mem_map.mp hs
    exact (Mapped.has_dependencies _).mp ⟨names, he, hn⟩

theorem imported_of_need (file : Path) {path n : String}
    (hneed : (path, n) ∈ (fileDeclarations c paths file).needs)
    (hother : path ≠ paths.typesImportPath file) :
    n ∈ (moduleFor c paths file).contents.imported := by
  obtain ⟨names, he, hn⟩ := (Mapped.has_dependencies _).mpr hneed
  refine List.mem_flatMap.mpr ⟨⟨none, names.map (⟨·, none⟩), path⟩, ?_, ?_⟩
  · exact List.mem_map.mpr ⟨(path, names), List.mem_filter.mpr ⟨he, by simpa using hother⟩, rfl⟩
  · exact List.mem_map.mpr ⟨⟨n, none⟩, List.mem_map_of_mem hn, rfl⟩

/-- A file `m` is closed under its imports, among the files `ms` and a shared file. -/
structure Closed (shared : EmittedModule) (ms : List EmittedModule) (m : EmittedModule) :
    Prop where
  known : ∀ n ∈ m.contents.references, n ∈ m.contents.declared ∨ n ∈ m.contents.imported
  /-- Each import is of names that the file it comes from declares. -/
  met : ∀ i ∈ m.contents.imports, i.default = none ∧
    ((i.source = shared.importPath ∧ ∀ s ∈ i.named, s.name ∈ shared.contents.declared) ∨
      ∃ other ∈ ms, other ≠ m ∧ i.source = other.importPath ∧
        ∀ s ∈ i.named, s.name ∈ other.contents.declared)
  foreign : ∀ i ∈ m.contents.imports, i.source ≠ m.importPath
  used : ∀ n ∈ m.contents.imported, n ∈ m.contents.references

theorem shared_declares {n : String} (hn : n = TypeExpr.maybeName ∨ n = resolverTypeName) :
    n ∈ (emitShared c paths).contents.declared := by
  have hdeclared : TypeExpr.maybeName ∈ (emitShared c paths).contents.declared ∧
      resolverTypeName ∈ (emitShared c paths).contents.declared := by
    unfold emitShared
    cases c.settings.contextImport <;> simp [Contents.declared, maybeType, resolverType]
  rcases hn with rfl | rfl
  · exact hdeclared.1
  · exact hdeclared.2

/-- The file of a need that is met by a definition. -/
theorem exists_module (hd : d.Loaded) (hc : Collects c d)
    (hfiles : ∀ f ∈ d.sourceFiles, Path.Below paths.schemaRoot f)
    (htext : ∀ f ∈ d.sourceFiles, f.IsUtf8) {n : String} {file : Path}
    (h : c.lookup n = .found file) :
    (Path.Below paths.schemaRoot file ∧ file.IsUtf8) ∧
      ∃ g ∈ d.sourceFiles.filter d.declaresIn,
      g.components = file.components ∧ n ∈ (moduleFor c paths g).contents.declared := by
  obtain ⟨t, ht, rfl, rfl⟩ := lookup_found hc h
  obtain ⟨g, hg, hsame⟩ := Document.exists_file_of_type hd.listed ht
  have hcomponents := Path.same_iff.mp hsame
  have hbelow := (hfiles g (List.mem_of_mem_filter hg)).congr hcomponents.symm
  have hutf8 := (htext g (List.mem_of_mem_filter hg)).congr hcomponents.symm
  exact ⟨⟨hbelow, hutf8⟩, g, hg, hcomponents.symm, declared_of_type hc ht hsame⟩

/-- All that is needed from one path is declared in one file. -/
theorem exporter_of_met (hd : d.Loaded) (hc : Collects c d)
    (hfiles : ∀ f ∈ d.sourceFiles, Path.Below paths.schemaRoot f)
    (htext : ∀ f ∈ d.sourceFiles, f.IsUtf8) {path n : String}
    (h : Met c paths (path, n)) :
    (path = (emitShared c paths).importPath ∧
      ∀ k, Met c paths (path, k) → k ∈ (emitShared c paths).contents.declared) ∨
    ∃ g ∈ d.sourceFiles.filter d.declaresIn, path = paths.typesImportPath g ∧
      ∀ k, Met c paths (path, k) → k ∈ (moduleFor c paths g).contents.declared := by
  cases h with
  | shared _ =>
    refine Or.inl ⟨rfl, ?_⟩
    intro k hk
    generalize hpath : paths.sharedImportPath = path at hk
    cases hk with
    | shared hk => exact shared_declares hk
    | found hfound =>
      obtain ⟨⟨hbelow, hutf8⟩, -⟩ := exists_module hd hc hfiles htext hfound
      exact absurd hpath.symm (OutputPaths.typesImportPath_ne_shared hbelow hutf8)
  | @found n file hfound =>
    obtain ⟨⟨hbelow, hutf8⟩, g, hg, hsame, -⟩ := exists_module hd hc hfiles htext hfound
    have hpath : paths.typesImportPath file = paths.typesImportPath g :=
      OutputPaths.typesImportPath_congr hsame.symm
    refine Or.inr ⟨g, hg, hpath, ?_⟩
    intro k hk
    generalize hneed : paths.typesImportPath file = path at hk
    cases hk with
    | shared _ => exact absurd hneed (OutputPaths.typesImportPath_ne_shared hbelow hutf8)
    | @found k file' hfound' =>
      obtain ⟨⟨hbelow', hutf8'⟩, g', hg', hsame', hdeclared⟩ :=
        exists_module hd hc hfiles htext hfound'
      have hfile := OutputPaths.typesImportPath_injective hbelow hbelow' hutf8 hutf8' hneed
      -- Both definitions stand in one source file, under whatever spelling of its path.
      have hg'' : g' = g := hd.listed.eq_of_components (List.mem_of_mem_filter hg')
        (List.mem_of_mem_filter hg) (hsame'.trans (hfile.symm.trans hsame.symm))
      exact hg'' ▸ hdeclared

theorem moduleFor_closed (hd : d.Loaded) (hc : Collects c d)
    (hfiles : ∀ f ∈ d.sourceFiles, Path.Below paths.schemaRoot f)
    (htext : ∀ f ∈ d.sourceFiles, f.IsUtf8) {file : Path}
    (hfile : file ∈ d.sourceFiles) :
    Closed (emitShared c paths) ((d.sourceFiles.filter d.declaresIn).map (moduleFor c paths))
      (moduleFor c paths file) := by
  have haccounted := fileDeclarations_accounted c paths file
  have hmet : AllMet c paths (fileDeclarations c paths file) := allMet_fileDeclarations file
  constructor
  case known =>
    intro n hn
    rcases haccounted.known n hn with hn | hn
    · obtain ⟨⟨path, n⟩, hneed, rfl⟩ := List.mem_map.mp hn
      by_cases hown : path = paths.typesImportPath file
      -- What is needed from the file's own path is not imported, but declared here.
      · rcases exporter_of_met hd hc hfiles htext (hmet _ hneed) with ⟨hpath, -⟩ | ⟨g, hg, hpath, hall⟩
        · exact absurd (hown.symm.trans hpath)
            (OutputPaths.typesImportPath_ne_shared (hfiles file hfile) (htext file hfile))
        · have hlisted := List.mem_of_mem_filter hg
          have hsame := OutputPaths.typesImportPath_injective (hfiles file hfile)
            (hfiles g hlisted) (htext file hfile) (htext g hlisted) (hown.symm.trans hpath)
          have hg' : g = file := hd.listed.eq_of_components hlisted hfile hsame.symm
          exact Or.inl (hg' ▸ hall n (hmet _ hneed))
      · exact Or.inr (imported_of_need file hneed hown)
    · exact Or.inl hn
  case met =>
    intro i hi
    obtain ⟨hdefault, hother, hne, -, hneeds⟩ := mem_imports file hi
    refine ⟨hdefault, ?_⟩
    -- Any one of the imported names decides which file the import comes from.
    obtain ⟨s, hs⟩ := List.exists_mem_of_ne_nil _ hne
    rcases exporter_of_met hd hc hfiles htext (hmet _ (hneeds s hs)) with
      ⟨hpath, hall⟩ | ⟨g, hg, hpath, hall⟩
    · exact Or.inl ⟨hpath, fun s hs => hall _ (hmet _ (hneeds s hs))⟩
    · refine Or.inr ⟨moduleFor c paths g, List.mem_map_of_mem hg, ?_, hpath,
        fun s hs => hall _ (hmet _ (hneeds s hs))⟩
      intro heq
      exact hother (hpath.trans (congrArg EmittedModule.importPath heq))
  case foreign => exact fun i hi => (mem_imports file hi).2.1
  case used =>
    intro n hn
    obtain ⟨i, hi, hn⟩ := List.mem_flatMap.mp hn
    obtain ⟨hdefault, -, -, hbound, hneeds⟩ := mem_imports file hi
    rw [hdefault, Option.toList_none, List.nil_append] at hn
    obtain ⟨s, hs, rfl⟩ := List.mem_map.mp hn
    rw [hbound s hs]
    exact haccounted.used _ (List.mem_map.mpr ⟨_, hneeds s hs, rfl⟩)

end

end TypeLoom.Generation
