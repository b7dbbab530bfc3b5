import TypeLoom.Proofs.Path.Joined

/-!
# Where the declarations for a schema file go

An ending that is put after a path lengthens its last step. The file of declarations for a schema
file below the root has the names that lead to that file under the directory for declarations, the
last of them with the ending. Main statements: different schema files have different files of
declarations, and only a schema file that is named as the shared file is without its ending has the
place of that.
-/

namespace TypeLoom

namespace Path

/-! ### The ending of a module -/

theorem splitAt_append_ts (cs : List Char) :
    ∃ initial piece, Text.splitAt (· == '/') cs = initial ++ [piece] ∧
      Text.splitAt (· == '/') (cs ++ ".ts".toList) = initial ++ [piece ++ ".ts".toList] :=
  Text.splitAt_append _ (by simp) cs

theorem pieces_append_ts (s : String) :
    ∃ initial piece, pieces ⟨s⟩ = initial ++ [piece] ∧
      pieces ⟨s ++ ".ts"⟩ = initial ++ [piece ++ ".ts"] := by
  obtain ⟨initial, piece, hs, happend⟩ := splitAt_append_ts s.toList
  refine ⟨initial.map String.ofList, String.ofList piece, ?_, ?_⟩
  · rw [pieces, hs, List.map_append]
    rfl
  · have hraw : (s ++ ".ts").toList = s.toList ++ ".ts".toList := String.toList_append
    rw [pieces, hraw, happend, List.map_append, List.map_singleton, String.ofList_append,
      String.ofList_toList]

theorem append_ts_ne (s : String) {t : String} (ht : t.toList.getLast? ≠ some 's') :
    s ++ ".ts" ≠ t := by
  rintro rfl
  rw [String.toList_append] at ht
  exact ht (List.getLast?_append_of_ne_nil _ (by decide))

/-- A step that ends in `.ts` is a name. -/
theorem stepComponents_append_ts (s : String) :
    ∃ initial piece, pieces ⟨s⟩ = initial ++ [piece] ∧
      stepComponents ⟨s ++ ".ts"⟩ =
        (denoting initial).map stepComponent ++ [.name (piece ++ ".ts")] := by
  obtain ⟨initial, piece, hs, happend⟩ := pieces_append_ts s
  have hempty : piece ++ ".ts" ≠ "" := append_ts_ne piece (by decide)
  have hhere : piece ++ ".ts" ≠ "." := append_ts_ne piece (by decide)
  have hup : piece ++ ".ts" ≠ ".." := append_ts_ne piece (by decide)
  have hidle : isIdle (piece ++ ".ts") = false := by simp [isIdle, hempty, hhere]
  have hname : stepComponent (piece ++ ".ts") = .name (piece ++ ".ts") :=
    if_neg (by simpa using hup)
  refine ⟨initial, piece, hs, ?_⟩
  rw [stepComponents, happend, denoting, List.filter_append, List.map_append]
  simp [hidle, hname, denoting]

theorem startOf_append_ts {s : String} (h : startOf (pieces ⟨s⟩) = []) :
    startOf (pieces ⟨s ++ ".ts"⟩) = [] := by
  obtain ⟨initial, piece, hs, happend⟩ := pieces_append_ts s
  rw [happend]
  rw [hs] at h
  cases initial with
  | nil =>
    have hhere : piece ++ ".ts" ≠ "." := append_ts_ne piece (by decide)
    unfold startOf
    split <;> simp_all
  | cons first rest => exact (startOf_congr fun _ => by simp).trans h

variable {p base : Path}

/-- A path of names has no components but its steps. -/
theorem Plain.startOf_eq (h : p.Plain) : startOf p.pieces = [] := by
  refine List.eq_nil_iff_forall_not_mem.mpr fun c hc => ?_
  obtain ⟨n, rfl⟩ := h c (by rw [components_eq_startOf]; exact List.mem_append_left _ hc)
  unfold startOf at hc
  split at hc <;> simp at hc

theorem Plain.anchor_eq (h : p.Plain) : p.split.anchor = .none := by
  cases ha : p.split.anchor with
  | none => rfl
  | root =>
    obtain ⟨n, hn⟩ := h .root (by simp [components_eq, ha, Anchor.components])
    cases hn
  | here => exact absurd (by simp [components_eq, ha, Anchor.components]) h.here_notMem

theorem raw_join_append {s : String} (h : p.isAbsolute = false)
    (h' : isAbsolute ⟨p.raw ++ s⟩ = false) :
    (base.join p).raw ++ s = (base.join ⟨p.raw ++ s⟩).raw := by
  rw [← String.toList_inj, toList_join h', String.toList_append, toList_join h,
    String.toList_append, List.append_assoc]

theorem Plain.components_join (base : Path) (h : p.Plain) :
    (base.join p).components = base.components ++ p.components := by
  by_cases hraw : base.raw = ""
  · obtain rfl : base = ⟨""⟩ := congrArg Path.mk hraw
    rw [empty_join h.isAbsolute_eq, components_empty, List.nil_append]
  · rw [Path.components_join h.isAbsolute_eq hraw, components_eq_startOf p, h.startOf_eq,
      List.nil_append]

/-- A path whose last step denotes something. -/
def Closed (p : Path) : Prop := ∀ s, p.pieces.getLast? = some s → isIdle s = false

theorem closed_intercalate {steps : List String} (hsteps : ∀ s ∈ steps, IsStep s)
    (hne : dropIdleEnd steps ≠ []) : Closed ⟨"/".intercalate (dropIdleEnd steps)⟩ := by
  intro s hs
  rw [pieces_intercalate hne fun t ht => hsteps t ((dropIdleEnd_initial steps).subset ht)] at hs
  exact isIdle_getLast?_dropIdleEnd hs

/-- What remains of a path below a base ends with a step that denotes something. -/
theorem closed_stripBase? {rest : Path} (h : p.stripBase? base = some rest) (hplain : rest.Plain)
    (hne : rest.raw ≠ "") : rest.Closed := by
  have hclosed : ∀ steps : List String, (∀ s ∈ steps, IsStep s) →
      rest = ⟨"/".intercalate (dropIdleEnd steps)⟩ → rest.Closed := by
    rintro steps hsteps rfl
    refine closed_intercalate hsteps fun hnil => hne ?_
    rw [hnil]
    rfl
  unfold stripBase? at h
  dsimp only at h
  split at h
  · split at h
    · have hrest := (Option.some.inj h).symm
      have hcomponents : rest.components = p.components := by
        rw [hrest, (denotes_trimmed p).components]
      have hanchor : p.split.anchor = .none :=
        Plain.anchor_eq fun c hc => hplain c (hcomponents ▸ hc)
      rw [hanchor] at hrest
      exact hclosed p.split.steps (fun s hs => isStep_of_mem_split hs) hrest
    · have hrest := (Option.some.inj h).symm
      refine hclosed _ (fun s hs => ?_) hrest
      exact isStep_of_mem_split
        ((dropSteps_suffix _ _).subset ((List.dropWhile_suffix _).subset hs))
  · cases h

theorem plain_of_components {names : List String} (h : p.components = names.map .name) :
    p.Plain := by
  intro c hc
  rw [h] at hc
  obtain ⟨n, -, rfl⟩ := List.mem_map.mp hc
  exact ⟨n, rfl⟩

/-- With an ending, a path of names has the same names but for the last one. -/
theorem components_append_ts (hclosed : p.Closed) {initial : List String} {last : String}
    (h : p.components = (initial ++ [last]).map .name) :
    components ⟨p.raw ++ ".ts"⟩ = (initial ++ [last ++ ".ts"]).map .name := by
  have hplain : p.Plain := plain_of_components h
  obtain ⟨front, piece, hpieces, hsteps⟩ := stepComponents_append_ts p.raw
  have hidle : isIdle piece = false := hclosed piece (by rw [hpieces, List.getLast?_concat])
  have hown : (denoting front).map stepComponent ++ [stepComponent piece] =
      initial.map Component.name ++ [Component.name last] := by
    have hfront : p.stepComponents =
        (denoting front).map stepComponent ++ [stepComponent piece] := by
      rw [stepComponents, hpieces]
      simp [denoting, hidle]
    rw [components_eq_startOf, hplain.startOf_eq, List.nil_append, hfront, List.map_append] at h
    exact h
  obtain ⟨hinitial, hlast⟩ := List.append_inj' hown rfl
  obtain rfl := eq_of_stepComponent (List.cons.inj hlast).1
  rw [components_eq_startOf, startOf_append_ts hplain.startOf_eq, List.nil_append, hsteps,
    hinitial, List.map_append, List.map_singleton]

end Path

namespace Generation.OutputPaths

open TypeLoom.Path

variable {p : OutputPaths} {file other : Path}

/-! ### Files of declarations -/

/-- The file of declarations stands under the directory for declarations as the schema file does
under the root. -/
theorem typesModule_components {initial : List String} {last : String}
    (h : file.components = p.schemaRoot.components ++ (initial ++ [last]).map .name) :
    (p.typesModule file).components =
      p.typesOutput.components ++ (initial ++ [last ++ ".ts"]).map .name := by
  obtain ⟨hstrip, hrest⟩ := relative_spec (by simp) h
  have hplain := plain_of_components hrest.components
  have hraw : (p.relative file).raw ≠ "" := fun hempty => by simpa using hrest.raw.mp hempty
  have hname := components_append_ts (closed_stripBase? hstrip hplain hraw) hrest.components
  have hplain' := plain_of_components hname
  have hmodule : p.typesModule file = p.typesOutput.join ⟨(p.relative file).raw ++ ".ts"⟩ := by
    rw [typesModule, raw_join_append hplain.isAbsolute_eq hplain'.isAbsolute_eq]
  rw [hmodule, hplain'.components_join, hname]

theorem sharedModule_components (p : OutputPaths) :
    p.sharedModule.components = p.typesOutput.components ++ ["index" ++ ".ts"].map .name := by
  have hname : components ⟨"index.ts"⟩ = ["index" ++ ".ts"].map .name := by decide
  rw [sharedModule, (plain_of_components hname).components_join, hname]

theorem snapshot_components (p : OutputPaths) :
    p.snapshot.components = p.typesOutput.components ++ ["schema.graphql"].map .name := by
  have hname : components ⟨"schema.graphql"⟩ = ["schema.graphql"].map .name := by decide
  rw [snapshot, (plain_of_components hname).components_join, hname]

/-- Under one directory, names are known from where they lead. -/
theorem names_eq_iff {dir : List Component} {names others : List String} :
    dir ++ names.map .name = dir ++ others.map .name ↔ names = others := by
  have hinjective : Function.Injective Component.name := fun _ _ => Component.name.inj
  rw [List.append_cancel_left_eq, (List.map_injective_iff.mpr hinjective).eq_iff]

/-- Names with an ending at the last of them are known from that. -/
theorem append_ts_eq_iff {initial initial' : List String} {last last' : String} :
    initial ++ [last ++ ".ts"] = initial' ++ [last' ++ ".ts"] ↔
      initial ++ [last] = initial' ++ [last'] := by
  rw [List.append_singleton_inj, List.append_singleton_inj, String.append_left_inj]

variable {names others : List String}

/-- Two files below the root have one file of declarations only if the same names lead to both. -/
theorem typesModule_eq_iff (hne : names ≠ []) (hne' : others ≠ [])
    (h : file.components = p.schemaRoot.components ++ names.map .name)
    (h' : other.components = p.schemaRoot.components ++ others.map .name) :
    (p.typesModule file).components = (p.typesModule other).components ↔ names = others := by
  obtain ⟨initial, last, rfl⟩ := (List.eq_nil_or_concat' names).resolve_left hne
  obtain ⟨initial', last', rfl⟩ := (List.eq_nil_or_concat' others).resolve_left hne'
  rw [typesModule_components h, typesModule_components h', names_eq_iff, append_ts_eq_iff]

/-- A file below the root has the place of the shared file only if it has the name of that. -/
theorem typesModule_eq_shared_iff (hne : names ≠ [])
    (h : file.components = p.schemaRoot.components ++ names.map .name) :
    (p.typesModule file).components = p.sharedModule.components ↔ names = ["index"] := by
  obtain ⟨initial, last, rfl⟩ := (List.eq_nil_or_concat' names).resolve_left hne
  rw [typesModule_components h, sharedModule_components, names_eq_iff]
  have hends : initial ++ [last ++ ".ts"] = [] ++ ["index" ++ ".ts"] ↔
      initial ++ [last] = [] ++ ["index"] := append_ts_eq_iff
  exact hends

/-- The place of the snapshot is not that of a file of declarations. -/
theorem typesModule_ne_snapshot (hne : names ≠ [])
    (h : file.components = p.schemaRoot.components ++ names.map .name) :
    (p.typesModule file).components ≠ p.snapshot.components := by
  obtain ⟨initial, last, rfl⟩ := (List.eq_nil_or_concat' names).resolve_left hne
  rw [typesModule_components h, snapshot_components, ne_eq, names_eq_iff]
  intro heq
  have hlast := congrArg List.getLast? heq
  rw [List.getLast?_concat] at hlast
  exact append_ts_ne last (by decide) (Option.some.inj hlast)

end Generation.OutputPaths

end TypeLoom
