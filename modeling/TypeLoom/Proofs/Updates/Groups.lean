import TypeLoom.Collected.Collection
import TypeLoom.Proofs.Declaration.Ordered
import TypeLoom.Proofs.Grouping
import TypeLoom.ResolverModule.Update

/-!
# Resolver fields by module

Fields go to modules by the components of a path, and a module whose fields have interfaces of
several names is a problem instead of an update. Main statement: no field is lost on the way and
none goes to two modules. The modules of the updates and of the problems are those of the fields,
each of them once; an update has the stubs of all fields of its module, and a problem names all
their interfaces.
-/

namespace TypeLoom.ResolverModule

open Schema Collected Generation
open Declaration (Ascending)

/-! ### Distinct texts -/

theorem distinct_concat (ns : List String) (n : String) :
    distinct (ns ++ [n]) = Declaration.insertName n (distinct ns) := by
  simp [distinct]

theorem ascending_distinct (ns : List String) : Ascending (distinct ns) := by
  induction ns using List.reverseRecOn with
  | nil => exact List.Pairwise.nil
  | append_singleton ns n ih => exact distinct_concat ns n ▸ ih.insertName n

theorem mem_distinct {ns : List String} {n : String} : n ∈ distinct ns ↔ n ∈ ns := by
  induction ns using List.reverseRecOn with
  | nil => simp [distinct]
  | append_singleton ns m ih =>
    rw [distinct_concat, Declaration.mem_insertName, ih, List.mem_append, List.mem_singleton]
    exact or_comm

/-- There are several distinct texts if two of them differ. -/
theorem one_lt_length_distinct {ns : List String} :
    1 < (distinct ns).length ↔ ∃ n ∈ ns, ∃ m ∈ ns, n ≠ m := by
  constructor
  · intro hlength
    obtain ⟨n, m, rest, hdistinct⟩ : ∃ n m rest, distinct ns = n :: m :: rest := by
      match h : distinct ns with
      | [] => simp [h] at hlength
      | [_] => simp [h] at hlength
      | n :: m :: rest => exact ⟨n, m, rest, rfl⟩
    have hnodup := (ascending_distinct ns).nodup
    rw [hdistinct] at hnodup
    refine ⟨n, mem_distinct.mp (by simp [hdistinct]), m, mem_distinct.mp (by simp [hdistinct]), ?_⟩
    rintro rfl
    simp at hnodup
  · rintro ⟨n, hn, m, hm, hne⟩
    rw [← mem_distinct] at hn hm
    match h : distinct ns with
    | [] => simp [h] at hn
    | [_] =>
      rw [h, List.mem_singleton] at hn hm
      exact absurd (hn.trans hm.symm) hne
    | _ :: _ :: _ => simp

/-! ### The fields of a module -/

section

variable (c : Context) (paths : OutputPaths)

/-- The module path that the directive of a resolver field's type asks for. -/
def requestOf (r : ResolverField) : Option String :=
  ((c.metadataOf? r.field.id).bind (·.module)).map (·.importPath)

/-- The module that implements a resolver field, if there is a directory for such modules. -/
def moduleOf? (r : ResolverField) : Option Path :=
  paths.resolverModule? r.field.file r.field.parent (requestOf c r)

/-- The name of the interface that has a resolver field as a member. -/
def interfaceOf (r : ResolverField) : String :=
  resolversName (groupName r.field.file r.field.parent)

def stubOf (r : ResolverField) : Stub := ⟨r.field.parent, r.resolver⟩

/-- The resolver fields that go to the module of a path, in the order in which the context has them:
type by type. -/
def fieldsOf (module : Path) : List ResolverField :=
  c.resolvers.values.filter fun r => (moduleOf? c paths r).any (·.same module)

end

/-- The module that a problem says has several interfaces. -/
def conflictModule? : Problem → Option Path
  | .conflictingResolverModule module _ => some module
  | _ => none

/-- The modules of updates and of conflicts. -/
def modulePaths (us : List Update) (ps : List Problem) : List Path :=
  us.map (·.module) ++ ps.filterMap conflictModule?

variable {c : Context} {paths : OutputPaths}

theorem moduleOf?_isSome (r : ResolverField) :
    (moduleOf? c paths r).isSome = paths.resolversOutput.isSome := by
  rw [moduleOf?, OutputPaths.resolverModule?, Option.isSome_map]

theorem assign?_eq (c : Context) (paths : OutputPaths) (r : ResolverField) :
    assign? c paths r = (moduleOf? c paths r).map fun module => ⟨module, interfaceOf r, r⟩ := rfl

/-- The fields that are assigned to a module are its fields. -/
theorem map_field_filter (rs : List ResolverField) (module : Path) :
    ((rs.filterMap (assign? c paths)).filter
        (·.module.components == module.components)).map (·.field) =
      rs.filter fun r => (moduleOf? c paths r).any (·.same module) := by
  induction rs with
  | nil => rfl
  | cons r rs ih =>
    have hassign := assign?_eq c paths r
    cases hmodule : moduleOf? c paths r with
    | none =>
      rw [hmodule] at hassign
      rw [List.filterMap_cons_none hassign, ih, List.filter_cons_of_neg (by simp [hmodule])]
    | some m =>
      rw [hmodule] at hassign
      rw [List.filterMap_cons_some hassign, List.filter_cons, List.filter_cons, hmodule]
      have hsame : (some m).any (·.same module) = (m.components == module.components) := rfl
      rw [hsame]
      split
      · rw [List.map_cons, ih]
      · exact ih

/-- The fields of one module, as they were assigned to it. -/
structure IsGroup (c : Context) (paths : OutputPaths) (first : Assignment)
    (group : List Assignment) : Prop where
  head : group.head? = some first
  fields : group.map (·.field) = fieldsOf c paths first.module
  assigned : ∀ a ∈ group, assign? c paths a.field = some a

namespace IsGroup

variable {first : Assignment} {group : List Assignment}

theorem type_eq (h : IsGroup c paths first group) {a : Assignment} (ha : a ∈ group) :
    a.type = interfaceOf a.field := by
  have hassign := h.assigned a ha
  rw [assign?_eq] at hassign
  obtain ⟨module, -, ha⟩ := Option.map_eq_some_iff.mp hassign
  rw [← ha]

theorem moduleOf?_eq (h : IsGroup c paths first group) :
    moduleOf? c paths first.field = some first.module := by
  have hassign := h.assigned first (List.mem_of_head? h.head)
  rw [assign?_eq] at hassign
  obtain ⟨module, hmodule, hfirst⟩ := Option.map_eq_some_iff.mp hassign
  rw [hmodule, ← hfirst]

/-- The interfaces of a group are those of the fields of its module. -/
theorem types_eq (h : IsGroup c paths first group) :
    group.map (·.type) = (fieldsOf c paths first.module).map interfaceOf := by
  rw [← h.fields, List.map_map]
  exact List.map_congr_left fun a ha => h.type_eq ha

theorem stubs_eq (h : IsGroup c paths first group) :
    group.map (fun a => (⟨a.field.field.parent, a.field.resolver⟩ : Stub)) =
      (fieldsOf c paths first.module).map stubOf := by
  rw [← h.fields, List.map_map]
  rfl

theorem head_field (h : IsGroup c paths first group) :
    (fieldsOf c paths first.module).head? = some first.field := by
  rw [← h.fields, List.head?_map, h.head]
  rfl

end IsGroup

/-- Whether the fields of a module have interfaces of several names. -/
def Conflicting (c : Context) (paths : OutputPaths) (module : Path) : Prop :=
  ∃ r ∈ fieldsOf c paths module, ∃ s ∈ fieldsOf c paths module, interfaceOf r ≠ interfaceOf s

/-- An update has all fields of its module, which have one interface; its path is spelt
as for the first of them, and so is its import chosen. -/
structure IsUpdate (c : Context) (paths : OutputPaths) (u : Update) : Prop where
  stubs : u.stubs = (fieldsOf c paths u.module).map stubOf
  types : ∀ r ∈ fieldsOf c paths u.module, interfaceOf r = u.type
  first : ∃ r, (fieldsOf c paths u.module).head? = some r ∧ moduleOf? c paths r = some u.module ∧
    u.importPath = paths.typesImportPath r.field.file

/-- A conflict names all interfaces of a module, in ascending order and each of them once, and
there are several. -/
structure IsConflict (c : Context) (paths : OutputPaths) (module : Path) (types : List String) :
    Prop where
  ascending : Ascending types
  types : ∀ t, t ∈ types ↔ ∃ r ∈ fieldsOf c paths module, interfaceOf r = t
  several : Conflicting c paths module

/-- What becomes of the fields of a module. -/
theorem ofGroup_cases {first : Assignment} {group : List Assignment}
    (h : IsGroup c paths first group) :
    (∃ types, ofGroup paths first group =
        .error (.conflictingResolverModule first.module types) ∧
      IsConflict c paths first.module types) ∨
    (∃ u, ofGroup paths first group = .ok u ∧ u.module = first.module ∧ IsUpdate c paths u ∧
      ¬ Conflicting c paths u.module) := by
  have hconflicting : 1 < (distinct (group.map (·.type))).length ↔
      Conflicting c paths first.module := by
    rw [one_lt_length_distinct, h.types_eq]
    simp only [List.mem_map, exists_exists_and_eq_and, Conflicting]
  unfold ofGroup
  dsimp only
  split
  · rename_i hseveral
    refine .inl ⟨_, rfl, ascending_distinct _, fun t => ?_, hconflicting.mp hseveral⟩
    rw [mem_distinct, h.types_eq, List.mem_map]
  · rename_i hone
    have hsame := mt hconflicting.mpr hone
    have hmem : first.field ∈ fieldsOf c paths first.module := List.mem_of_head? h.head_field
    refine .inr ⟨_, rfl, rfl, ⟨h.stubs_eq, fun r hr => ?_, ?_⟩, hsame⟩
    · rw [h.type_eq (List.mem_of_head? h.head)]
      by_contra hne
      exact hsame ⟨r, hr, first.field, hmem, hne⟩
    · exact ⟨first.field, h.head_field, h.moduleOf?_eq, rfl⟩

/-! ### All modules -/

section

variable (c paths)

/-- The fields by their modules. -/
def moduleGroups : Grouping (List Path.Component) Assignment :=
  Grouping.ofList (·.module.components) (c.resolvers.values.filterMap (assign? c paths))

/-- What becomes of each module. -/
def outcomes : List (Except Problem Update) :=
  (moduleGroups c paths).filterMap fun e => e.2.head?.map fun first => ofGroup paths first e.2

end

/-- The module of an update or of a conflict. -/
def outcomeModule? : Except Problem Update → Option Path
  | .ok u => some u.module
  | .error p => conflictModule? p

theorem isGroup_of_mem {key : List Path.Component} {group : List Assignment}
    (h : (key, group) ∈ moduleGroups c paths) :
    ∃ first, IsGroup c paths first group ∧ first.module.components = key := by
  have hholds := Grouping.holds_ofList (fun a : Assignment => a.module.components)
    (c.resolvers.values.filterMap (assign? c paths))
  obtain ⟨first, hfirst⟩ : ∃ first, group.head? = some first := by
    cases group with
    | nil => exact absurd rfl (hholds.nonempty _ h)
    | cons a _ => exact ⟨a, rfl⟩
  have hgroup := hholds.get_of_mem h
  have hmem : ∀ a ∈ group, a ∈ c.resolvers.values.filterMap (assign? c paths) ∧
      a.module.components = key := by
    intro a ha
    rw [hgroup, List.mem_filter, beq_iff_eq] at ha
    exact ha
  have hkey := (hmem first (List.mem_of_head? hfirst)).2
  refine ⟨first, ⟨hfirst, ?_, fun a ha => ?_⟩, hkey⟩
  · rw [hgroup, ← hkey]
    exact map_field_filter _ _
  · obtain ⟨r, -, hassign⟩ := List.mem_filterMap.mp (hmem a ha).1
    have hfield : a.field = r := by
      rw [assign?_eq] at hassign
      obtain ⟨module, -, rfl⟩ := Option.map_eq_some_iff.mp hassign
      rfl
    rw [hfield, hassign]

theorem outcome_of_mem {result : Except Problem Update} (h : result ∈ outcomes c paths) :
    ∃ first group, IsGroup c paths first group ∧ ofGroup paths first group = result := by
  obtain ⟨⟨key, group⟩, hmem, hresult⟩ := List.mem_filterMap.mp h
  obtain ⟨first, hgroup, -⟩ := isGroup_of_mem hmem
  rw [hgroup.head] at hresult
  exact ⟨first, group, hgroup, Option.some.inj hresult⟩

/-- Updates and conflicts are apart in two lists what they are in one. -/
theorem modulePaths_perm (results : List (Except Problem Update)) :
    (modulePaths (results.filterMap fun | .ok u => some u | .error _ => none)
      (results.filterMap fun | .ok _ => none | .error p => some p)).Perm
      (results.filterMap outcomeModule?) := by
  induction results with
  | nil => exact List.Perm.refl []
  | cons result results ih =>
    unfold modulePaths at ih ⊢
    cases result with
    | ok u => simpa [outcomeModule?] using ih
    | error p =>
      cases hmodule : conflictModule? p with
      | none => simpa [outcomeModule?, hmodule] using ih
      | some module =>
        simpa [outcomeModule?, hmodule] using List.perm_middle.trans (ih.cons module)

/-- Every group has one module among the outcomes. -/
theorem components_outcomes :
    ((outcomes c paths).filterMap outcomeModule?).map (·.components) =
      (moduleGroups c paths).keys := by
  rw [outcomes, List.filterMap_filterMap, List.map_filterMap, Grouping.keys,
    ← List.filterMap_eq_map]
  refine List.filterMap_congr ?_
  rintro ⟨key, group⟩ hmem
  obtain ⟨first, hgroup, hkey⟩ := isGroup_of_mem hmem
  rw [hgroup.head]
  rcases ofGroup_cases hgroup with ⟨types, hresult, -⟩ | ⟨u, hresult, hmodule, -⟩
  · simp [hresult, outcomeModule?, conflictModule?, hkey]
  · simp [hresult, outcomeModule?, hmodule, hkey]

theorem components_modulePaths :
    ((modulePaths (updates c paths).1 (updates c paths).2).map (·.components)).Perm
      (moduleGroups c paths).keys :=
  components_outcomes ▸ (modulePaths_perm (outcomes c paths)).map _

theorem mem_keys_moduleGroups {key : List Path.Component} :
    key ∈ (moduleGroups c paths).keys ↔
      ∃ r ∈ c.resolvers.values, ∃ m, moduleOf? c paths r = some m ∧ m.components = key := by
  have hholds := Grouping.holds_ofList (fun a : Assignment => a.module.components)
    (c.resolvers.values.filterMap (assign? c paths))
  rw [moduleGroups, hholds.mem_keys]
  constructor
  · rintro ⟨a, ha, rfl⟩
    obtain ⟨r, hr, hassign⟩ := List.mem_filterMap.mp ha
    rw [assign?_eq] at hassign
    obtain ⟨m, hm, rfl⟩ := Option.map_eq_some_iff.mp hassign
    exact ⟨r, hr, m, hm, rfl⟩
  · rintro ⟨r, hr, m, hm, rfl⟩
    refine ⟨⟨m, interfaceOf r, r⟩, List.mem_filterMap.mpr ⟨r, hr, ?_⟩, rfl⟩
    rw [assign?_eq, hm]
    rfl

/-- No two modules of updates or conflicts are one path. -/
theorem nodup_modulePaths (c : Context) (paths : OutputPaths) :
    ((modulePaths (updates c paths).1 (updates c paths).2).map (·.components)).Nodup :=
  components_modulePaths.symm.nodup (Grouping.holds_ofList _ _).keys_nodup

theorem isUpdate_of_mem {u : Update} (h : u ∈ (updates c paths).1) :
    IsUpdate c paths u ∧ ¬ Conflicting c paths u.module := by
  obtain ⟨result, hresult, hok⟩ := List.mem_filterMap.mp h
  obtain ⟨first, group, hgroup, rfl⟩ := outcome_of_mem hresult
  rcases ofGroup_cases hgroup with ⟨types, hcase, -⟩ | ⟨v, hcase, -, hupdate, hsame⟩
  · rw [hcase] at hok
    cases hok
  · rw [hcase] at hok
    cases hok
    exact ⟨hupdate, hsame⟩

theorem isConflict_of_mem {p : Problem} (h : p ∈ (updates c paths).2) :
    ∃ module types, p = .conflictingResolverModule module types ∧
      IsConflict c paths module types := by
  obtain ⟨result, hresult, herror⟩ := List.mem_filterMap.mp h
  obtain ⟨first, group, hgroup, rfl⟩ := outcome_of_mem hresult
  rcases ofGroup_cases hgroup with ⟨types, hcase, hconflict⟩ | ⟨v, hcase, -⟩
  · rw [hcase] at herror
    cases herror
    exact ⟨first.module, types, rfl, hconflict⟩
  · rw [hcase] at herror
    cases herror

/-- What updates and conflicts say of the resolver fields they are made from. -/
structure PartitionsFields (c : Context) (paths : OutputPaths) (us : List Update)
    (ps : List Problem) : Prop where
  /-- With a directory for them, every field has a module, which is listed once. -/
  once : paths.resolversOutput.isSome = true → ∀ r ∈ c.resolvers.values,
    ∃ m, moduleOf? c paths r = some m ∧
      ((modulePaths us ps).map (·.components)).count m.components = 1
  apart : (modulePaths us ps).Pairwise fun m n => m.components ≠ n.components
  /-- No module is listed without a field. -/
  used : ∀ m ∈ modulePaths us ps, fieldsOf c paths m ≠ []
  updates : ∀ u ∈ us, IsUpdate c paths u
  conflicts : ∀ p ∈ ps, ∃ module types, p = .conflictingResolverModule module types ∧
    IsConflict c paths module types
  conflicts_iff : ∀ m ∈ modulePaths us ps,
    m ∈ ps.filterMap conflictModule? ↔ Conflicting c paths m
  unconfigured : paths.resolversOutput = none → us = [] ∧ ps = []

/-- Every resolver field goes to one module, and each module is brought up to date or in conflict,
as its fields have one interface or several. -/
theorem updates_partitioned (c : Context) (paths : OutputPaths) :
    PartitionsFields c paths (updates c paths).1 (updates c paths).2 where
  once houtput r hr := by
    obtain ⟨m, hm⟩ := Option.isSome_iff_exists.mp ((moduleOf?_isSome (c := c) r).trans houtput)
    refine ⟨m, hm, List.count_eq_one_of_mem (nodup_modulePaths c paths) ?_⟩
    exact components_modulePaths.mem_iff.mpr (mem_keys_moduleGroups.mpr ⟨r, hr, m, hm, rfl⟩)
  apart := List.pairwise_map.mp (nodup_modulePaths c paths)
  used m hm := by
    have hkey := components_modulePaths.mem_iff.mp (List.mem_map_of_mem hm)
    obtain ⟨r, hr, n, hn, hsame⟩ := mem_keys_moduleGroups.mp hkey
    refine List.ne_nil_of_mem (a := r) (List.mem_filter.mpr ⟨hr, ?_⟩)
    simp [hn, Path.same, hsame]
  updates u hu := (isUpdate_of_mem hu).1
  conflicts p hp := isConflict_of_mem hp
  conflicts_iff m hm := by
    constructor
    · intro h
      obtain ⟨p, hp, hmodule⟩ := List.mem_filterMap.mp h
      obtain ⟨module, types, rfl, hconflict⟩ := isConflict_of_mem hp
      cases hmodule
      exact hconflict.several
    · intro h
      refine (List.mem_append.mp hm).resolve_left fun hupdate => ?_
      obtain ⟨u, hu, rfl⟩ := List.mem_map.mp hupdate
      exact (isUpdate_of_mem hu).2 h
  unconfigured hnone := by
    have hassign : assign? c paths = fun _ => none := by
      funext r
      rw [assign?_eq, moduleOf?, OutputPaths.resolverModule?, hnone]
      rfl
    simp [updates, hassign, Grouping.ofList, Grouping.empty]

/-- Two types ask for one module, which is in conflict; the repeated stub of a third one is kept. -/
example :
    ((Document.parseAll
      [(⟨"Query.graphql"⟩,
          "type Query @resolvers(importPath: \"app/m\") \x7b a: Int @resolve \x7d"),
        (⟨"User.graphql"⟩,
          "type User @resolvers(importPath: \"app//m.ts\") \x7b b: Int @resolve \x7d"),
        (⟨"Post.graphql"⟩, "type Post \x7b c: Int @resolve c: Int @resolve \x7d")]).toOption.map
      fun d => updates ((Context.fresh.addDocument d).collectDocument d)
        ⟨⟨""⟩, ⟨"types"⟩, "app/types", some ⟨"out"⟩, some "app"⟩) =
      some ([⟨"app/types/Post.graphql", ⟨"out/Post.ts"⟩, [⟨"Post", "c"⟩, ⟨"Post", "c"⟩],
          "PostResolvers"⟩],
        [.conflictingResolverModule ⟨"out/m.ts"⟩ ["QueryResolvers", "UserResolvers"]]) := by
  decide +kernel

end TypeLoom.ResolverModule
