import TypeLoom.Proofs.Emission.Imports
import TypeLoom.ResolverModule.Update

/-!
# Resolver modules and the interfaces that type them

Resolver fields are put into groups twice: under their file and type where the interfaces are
emitted, and under their module where the modules are brought up to date. Main statement: where the
two ways agree on which fields belong together, every module has exactly the resolvers that the
interface it is typed by asks for.
-/

namespace TypeLoom

namespace Generation

open Schema Declaration Collected

variable {c : Context} {d : Document}

/-- The name of a group depends on the components of the file alone. -/
theorem groupName_congr {file other : Path} (h : file.components = other.components)
    (parent : String) : groupName file parent = groupName other parent := by
  have hstem : file.stem? = other.stem? := by
    rw [Path.stem?, Path.stem?, Path.fileName?, Path.fileName?, h]
  rw [groupName, groupName, fileWord, fileWord, hstem]

/-- A resolver field has an interface in its file, with the resolvers of its type there. -/
theorem exists_resolversDeclaration (hd : d.Loaded) (hc : Collects c d) (paths : OutputPaths)
    {file : Path} {r : ResolverField} (hr : r ∈ d.resolverFields)
    (hfile : r.field.file.same file = true) :
    ∃ rs, resolversDeclaration c file r.field.parent rs ∈
        (moduleFor c paths file).contents.declarations ∧
      ∀ s, s ∈ rs ↔ s ∈ d.resolverFields ∧ s.field.file.same file = true ∧
        s.field.parent = r.field.parent := by
  have hmem : ∀ s, s ∈ fieldsIn c file ↔ s ∈ d.resolverFields ∧ s.field.file.same file = true := by
    intro s
    rw [(fieldsIn_perm hc file).mem_iff, List.mem_filter]
  have hgroups := Grouping.holds_ofList (fun s : ResolverField => s.field.parent) (fieldsIn c file)
  have hkey : r.field.parent ∈ (layoutIn c file).groups.keys :=
    hgroups.mem_keys.mpr ⟨r, (hmem r).mpr ⟨hr, hfile⟩, rfl⟩
  obtain ⟨⟨parent, rs⟩, hgroup, hparent⟩ := List.mem_map.mp hkey
  obtain rfl : parent = r.field.parent := hparent
  refine ⟨rs, ?_, ?_⟩
  · have hdeclarations : (moduleFor c paths file).contents.declarations =
        (layoutIn c file).declarations c paths d := fileDeclarations_value hd hc paths file
    rw [hdeclarations]
    refine List.mem_append_right _ (List.mem_flatMap.mpr ⟨_, hgroup, ?_⟩)
    exact List.mem_append_right _ (List.mem_singleton_self _)
  · intro s
    rw [hgroups.get_of_mem hgroup, List.mem_filter, hmem, beq_iff_eq, and_assoc]

end Generation

namespace ResolverModule

open Schema Declaration Collected Generation

variable {c : Context} {d : Document} {paths : OutputPaths}

theorem assign?_eq_some {r : ResolverField} {a : Assignment} (h : assign? c paths r = some a) :
    a.field = r ∧ a.type = resolversName (groupName r.field.file r.field.parent) := by
  unfold assign? at h
  obtain ⟨module, -, rfl⟩ := Option.map_eq_some_iff.mp h
  exact ⟨rfl, rfl⟩

/-- All fields have a module, or none has. -/
theorem exists_assign? {r : ResolverField} {a : Assignment} (h : assign? c paths r = some a)
    (s : ResolverField) : ∃ b, assign? c paths s = some b := by
  cases houtput : paths.resolversOutput with
  | none => simp [assign?, OutputPaths.resolverModule?, houtput] at h
  | some output => simp [assign?, OutputPaths.resolverModule?, houtput]

theorem ofGroup_eq_ok {first : Assignment} {group : List Assignment} {u : Update}
    (h : ofGroup paths first group = .ok u) :
    u.type = first.type ∧ u.importPath = paths.typesImportPath first.field.field.file ∧
      u.stubs.map (·.name) = group.map (·.field.resolver) := by
  unfold ofGroup at h
  dsimp only at h
  split at h
  · cases h
  · cases h
    exact ⟨rfl, rfl, List.map_map⟩

/-- An update is made from the fields that go to one module, and typed by the first of them. -/
theorem mem_updates {u : Update} (hu : u ∈ (updates c paths).1) :
    ∃ r ∈ c.resolvers.values, ∃ a, assign? c paths r = some a ∧ u.type = a.type ∧
      u.importPath = paths.typesImportPath r.field.file ∧
      ∀ n, n ∈ u.stubs.map (·.name) ↔ ∃ s ∈ c.resolvers.values, ∃ b, assign? c paths s = some b ∧
        a.module.same b.module = true ∧ s.resolver = n := by
  simp only [updates, List.mem_filterMap] at hu
  obtain ⟨result, ⟨⟨key, group⟩, hgroup, hresult⟩, hok⟩ := hu
  obtain ⟨first, hfirst, hofGroup⟩ := Option.map_eq_some_iff.mp hresult
  have hheld := (Grouping.holds_ofList (fun a : Assignment => a.module.components)
    (c.resolvers.values.filterMap (assign? c paths))).get_of_mem hgroup
  have hmem : ∀ b, b ∈ group ↔ (∃ s ∈ c.resolvers.values, assign? c paths s = some b) ∧
      b.module.components = key := by
    intro b
    rw [hheld, List.mem_filter, List.mem_filterMap, beq_iff_eq]
  obtain ⟨⟨r, hr, ha⟩, hkey⟩ := (hmem first).mp (List.mem_of_head? hfirst)
  cases result with
  | error p => cases hok
  | ok v =>
    cases hok
    obtain ⟨htype, hpath, hstubs⟩ := ofGroup_eq_ok hofGroup
    rw [(assign?_eq_some ha).1] at hpath
    refine ⟨r, hr, first, ha, htype, hpath, ?_⟩
    intro n
    rw [hstubs, List.mem_map]
    constructor
    · rintro ⟨b, hb, rfl⟩
      obtain ⟨⟨s, hs, hassign⟩, hsame⟩ := (hmem b).mp hb
      refine ⟨s, hs, b, hassign, Path.same_iff.mpr (hkey.trans hsame.symm), ?_⟩
      rw [(assign?_eq_some hassign).1]
    · rintro ⟨s, hs, b, hassign, hsame, rfl⟩
      refine ⟨b, (hmem b).mpr ⟨⟨s, hs, hassign⟩, ?_⟩, ?_⟩
      · exact (Path.same_iff.mp hsame).symm.trans hkey
      · rw [(assign?_eq_some hassign).1]

/-- Whether two resolver fields go to one module exactly when they are declared in one file for one
type. -/
def matchesGroups (c : Context) (paths : OutputPaths) (rs : List ResolverField) : Bool :=
  rs.all fun r => rs.all fun s =>
    match assign? c paths r, assign? c paths s with
    | some a, some b => a.module.same b.module ==
        (r.field.file.same s.field.file && r.field.parent == s.field.parent)
    | _, _ => true

theorem matchesGroups_iff {rs : List ResolverField} (h : matchesGroups c paths rs = true)
    {r s : ResolverField} (hr : r ∈ rs) (hs : s ∈ rs) {a b : Assignment}
    (ha : assign? c paths r = some a) (hb : assign? c paths s = some b) :
    a.module.same b.module = true ↔
      r.field.file.same s.field.file = true ∧ r.field.parent = s.field.parent := by
  have hpair := List.all_eq_true.mp (List.all_eq_true.mp h r hr) s hs
  simp only [ha, hb, beq_iff_eq] at hpair
  rw [hpair, Bool.and_eq_true, beq_iff_eq]

/-- The file that an update imports from declares the interface that types the module, with one
member for each resolver of the module and no other. -/
def Agrees (ms : List EmittedModule) (u : Update) : Prop :=
  ∃ m ∈ ms, m.importPath = u.importPath ∧ ∃ doc bases members,
    Declaration.interface doc u.type bases members ∈ m.contents.declarations ∧
      ∀ n, n ∈ members.map (·.name) ↔ n ∈ u.stubs.map (·.name)

/-- If modules match the groups of fields, each module has the resolvers of its interface. -/
theorem updates_agree (settings : Settings) (paths : OutputPaths) {d : Document} (hd : d.Loaded)
    (hmatch : matchesGroups ((Context.uncollected settings (some d)).collectDocument d) paths
      d.resolverFields = true) :
    ∀ u ∈ (updates ((Context.uncollected settings (some d)).collectDocument d) paths).1,
      Agrees (emit ((Context.uncollected settings (some d)).collectDocument d) paths).1 u := by
  have hc := collects_collectDocument settings (some d) d
  have hdocument := ((Context.uncollected settings (some d)).walk_collectDocument d).document
  revert hmatch hc hdocument
  generalize (Context.uncollected settings (some d)).collectDocument d = c
  intro hmatch hc hdocument u hu
  obtain ⟨r, hr, a, ha, htype, hpath, hstubs⟩ := mem_updates hu
  rw [hc.resolvers.mem_values] at hr
  obtain ⟨file, hfile, hsame⟩ := Document.exists_file hd.listed hr
  obtain ⟨rs, hdeclared, hrs⟩ := exists_resolversDeclaration hd hc paths hr hsame
  have hcomponents := Path.same_iff.mp hsame
  refine ⟨moduleFor c paths file, ?_, ?_, none, [],
    rs.map fun s => ⟨none, s.resolver, .named (resolverNameOf c s.field)⟩, ?_, ?_⟩
  · rw [emit_eq hc hdocument]
    exact List.mem_map_of_mem hfile
  · rw [hpath]
    exact (OutputPaths.typesImportPath_congr hcomponents).symm
  · rw [htype, (assign?_eq_some ha).2, groupName_congr hcomponents]
    exact hdeclared
  · have hgroup : ∀ s ∈ d.resolverFields, ∀ b, assign? c paths s = some b →
        (a.module.same b.module = true ↔ s ∈ rs) := by
      intro s hs b hb
      rw [matchesGroups_iff hmatch hr hs ha hb, hrs, Path.same_iff, Path.same_iff, hcomponents]
      exact ⟨fun h => ⟨hs, h.1.symm, h.2.symm⟩, fun h => ⟨h.2.1.symm, h.2.2.symm⟩⟩
    intro n
    rw [hstubs n, List.map_map, List.mem_map]
    constructor
    · rintro ⟨s, hs, rfl⟩
      have hfield := ((hrs s).mp hs).1
      obtain ⟨b, hb⟩ := exists_assign? ha s
      exact ⟨s, hc.resolvers.mem_values.mpr hfield, b, hb, (hgroup s hfield b hb).mpr hs, rfl⟩
    · rintro ⟨s, hs, b, hb, hmodule, rfl⟩
      exact ⟨s, (hgroup s (hc.resolvers.mem_values.mp hs) b hb).mp hmodule, rfl⟩

theorem updates_agree_of_two_files :
    ∃ d, (Document.parseAll twoFiles).toOption = some d ∧
      (updates ((Context.uncollected .empty (some d)).collectDocument d) twoFilePaths).1.map
        (fun u => (u.type, u.stubs.map (·.name))) =
        [("QueryResolvers", ["viewer"]), ("UserQueryResolvers", ["find"])] ∧
      ∀ u ∈ (updates ((Context.uncollected .empty (some d)).collectDocument d) twoFilePaths).1,
        Agrees (emit ((Context.uncollected .empty (some d)).collectDocument d) twoFilePaths).1 u := by
  have hread : ((Document.parseAll twoFiles).toOption.map fun d =>
      (matchesGroups ((Context.uncollected .empty (some d)).collectDocument d) twoFilePaths
        d.resolverFields,
      (updates ((Context.uncollected .empty (some d)).collectDocument d) twoFilePaths).1.map
        fun u => (u.type, u.stubs.map (·.name)))) =
      some (true, [("QueryResolvers", ["viewer"]), ("UserQueryResolvers", ["find"])]) := by
    decide +kernel
  obtain ⟨d, hd, hrun⟩ := Option.map_eq_some_iff.mp hread
  obtain ⟨hmatch, hupdates⟩ := Prod.mk.inj hrun
  exact ⟨d, hd, hupdates,
    updates_agree .empty twoFilePaths (Document.loaded_of_toOption hd) hmatch⟩

/-- Two files of one directory whose names give one word get one module, though each of them has an
interface of its own. -/
example :
    ((Document.parseAll
      [(⟨"schema/Profile.gql"⟩, "type Query \x7b avatar: Int @resolve \x7d"),
        (⟨"schema/Profile.graphql"⟩, "extend type Query \x7b profile: Int @resolve \x7d")]
      ).toOption.map fun d => (updates ((Context.fresh.addDocument d).collectDocument d)
        ⟨⟨"schema"⟩, ⟨"types"⟩, "app/types", some ⟨"resolvers"⟩, none⟩).1.map fun u =>
          (u.importPath, u.type, u.stubs.map (·.name))) =
      some [("app/types/Profile.gql", "ProfileQueryResolvers", ["avatar", "profile"])] := by
  decide +kernel

end ResolverModule

end TypeLoom
