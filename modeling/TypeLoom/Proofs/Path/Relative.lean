import Mathlib.Data.List.DropRight
import TypeLoom.Generation.OutputPaths

/-!
# Files below a root and how they are imported

A path made from steps has these steps, as long as the first of them denotes something. What
remains of a file below a root are the names that follow the root, in whatever way both are spelt.
Main statements: files below one root have different import paths unless they are the same path,
and a file with an extension is never imported as the shared file is.
-/

namespace TypeLoom

theorem Text.splitAt_eq_splitOnP (sep : Char → Bool) (cs : List Char) :
    Text.splitAt sep cs = cs.splitOnP sep := by
  induction cs with
  | nil => simp [Text.splitAt]
  | cons c cs ih =>
    rw [Text.splitAt, List.splitOnP_cons_eq_if_modifyHead, ih]
    split
    · rfl
    · cases hpieces : cs.splitOnP sep with
      | nil => exact absurd hpieces (List.splitOnP_ne_nil sep cs)
      | cons piece pieces => rfl

theorem Text.sep_of_mem_splitAt {sep : Char → Bool} {cs piece : List Char}
    (h : piece ∈ Text.splitAt sep cs) : ∀ c ∈ piece, sep c = false := by
  induction cs generalizing piece with
  | nil =>
    obtain rfl := List.mem_singleton.mp h
    simp
  | cons c cs ih =>
    rw [Text.splitAt] at h
    split at h
    · rcases List.mem_cons.mp h with rfl | h
      · simp
      · exact ih h
    · rename_i hc
      split at h
      · obtain rfl := List.mem_singleton.mp h
        simpa using hc
      · rename_i first rest hpieces
        rw [hpieces] at ih
        rcases List.mem_cons.mp h with rfl | h
        · exact List.forall_mem_cons.mpr ⟨by simpa using hc, ih List.mem_cons_self⟩
        · exact ih (List.mem_cons_of_mem first h)

namespace Path

/-- Whether a text can stand between two separators. -/
def IsStep (s : String) : Prop := '/' ∉ s.toList

/-- A path cut at its separators. -/
def pieces (p : Path) : List String := (Text.splitAt (· == '/') p.raw.toList).map String.ofList

theorem isStep_of_mem_pieces {p : Path} {s : String} (hs : s ∈ p.pieces) : IsStep s := by
  obtain ⟨piece, hpiece, rfl⟩ := List.mem_map.mp hs
  intro hmem
  rw [String.toList_ofList] at hmem
  simpa using Text.sep_of_mem_splitAt hpiece '/' hmem

theorem pieces_intercalate {steps : List String} (hne : steps ≠ []) (hsteps : ∀ s ∈ steps, IsStep s) :
    pieces ⟨"/".intercalate steps⟩ = steps := by
  have hjoined : ("/".intercalate steps).toList = ['/'].intercalate (steps.map String.toList) := by
    rw [String.toList_intercalate]
    rfl
  have hsplit : Text.splitAt (· == '/') ("/".intercalate steps).toList = steps.map String.toList := by
    rw [hjoined, Text.splitAt_eq_splitOnP, ← List.splitOn_eq_splitOnP]
    apply List.splitOn_intercalate
    · intro l hl
      obtain ⟨s, hs, rfl⟩ := List.mem_map.mp hl
      exact hsteps s hs
    · simpa using hne
  unfold pieces
  rw [hsplit, List.map_map]
  exact List.map_id'' (fun _ => String.ofList_toList) steps

/-- A path is cut after its anchor. Without an anchor it starts with a step that denotes something,
or it is empty. -/
theorem split_cases (p : Path) :
    (∃ step steps, p.pieces = "" :: step :: steps ∧ p.split = ⟨.root, step :: steps⟩) ∨
    (∃ steps, p.pieces = "." :: steps ∧ p.split = ⟨.here, steps⟩) ∨
    (p.split = ⟨.none, p.pieces⟩ ∧
      (p.pieces = [""] ∨ ∀ s, p.pieces.head? = some s → isIdle s = false)) := by
  unfold split pieces
  generalize (Text.splitAt (· == '/') p.raw.toList).map String.ofList = ps
  split
  · exact Or.inl ⟨_, _, rfl, rfl⟩
  · exact Or.inr (Or.inl ⟨_, rfl, rfl⟩)
  · rename_i hroot hhere
    refine Or.inr (Or.inr ⟨rfl, ?_⟩)
    cases ps with
    | nil => exact Or.inr (by simp)
    | cons s rest =>
      by_cases hempty : s = ""
      · subst hempty
        cases rest with
        | nil => exact Or.inl rfl
        | cons step steps => exact absurd rfl (hroot step steps)
      · have hdot : s ≠ "." := fun h => hhere rest (h ▸ rfl)
        refine Or.inr fun t ht => ?_
        obtain rfl : s = t := by simpa using ht
        simp [isIdle, hempty, hdot]

theorem isStep_of_mem_split {p : Path} {s : String} (hs : s ∈ p.split.steps) : IsStep s := by
  apply isStep_of_mem_pieces (p := p)
  rcases p.split_cases with ⟨step, steps, hp, he⟩ | ⟨steps, hp, he⟩ | ⟨he, -⟩
  · rw [he] at hs
    exact hp ▸ List.mem_cons_of_mem _ hs
  · rw [he] at hs
    exact hp ▸ List.mem_cons_of_mem _ hs
  · rwa [he] at hs

theorem split_intercalate {steps : List String} (hsteps : ∀ s ∈ steps, IsStep s) {first : String}
    (hfirst : steps.head? = some first) (hidle : isIdle first = false) :
    split ⟨"/".intercalate steps⟩ = ⟨.none, steps⟩ := by
  have hne : steps ≠ [] := by
    rintro rfl
    cases hfirst
  have hpieces := pieces_intercalate hne hsteps
  unfold pieces at hpieces
  unfold split
  rw [hpieces]
  split
  · cases hfirst
    exact absurd hidle (by decide)
  · cases hfirst
    exact absurd hidle (by decide)
  · rfl

/-- The steps that denote something. -/
def denoting (steps : List String) : List String := steps.filter (!isIdle ·)

theorem components_eq (p : Path) :
    p.components = p.split.anchor.components ++ (denoting p.split.steps).map stepComponent := rfl

theorem denoting_dropWhile (steps : List String) :
    denoting (steps.dropWhile isIdle) = denoting steps := by
  induction steps with
  | nil => rfl
  | cons s steps ih =>
    cases hs : isIdle s with
    | false => simp [hs]
    | true =>
      rw [List.dropWhile_cons_of_pos hs, ih]
      simp [denoting, hs]

theorem denoting_dropIdleEnd (steps : List String) :
    denoting (dropIdleEnd steps) = denoting steps := by
  have hreverse := denoting_dropWhile steps.reverse
  unfold denoting at hreverse ⊢
  rw [dropIdleEnd, List.filter_reverse, hreverse, List.filter_reverse, List.reverse_reverse]

theorem dropIdleEnd_initial (steps : List String) : dropIdleEnd steps <+: steps :=
  List.rdropWhile_prefix isIdle steps

theorem denoting_dropSteps (n : Nat) (steps : List String) :
    denoting (dropSteps n steps) = (denoting steps).drop n := by
  fun_induction dropSteps n steps with
  | case1 => rfl
  | case2 => simp [denoting]
  | case3 n s steps hs ih => simpa [denoting, hs] using ih
  | case4 n s steps hs ih => simpa [denoting, hs] using ih

theorem dropSteps_suffix (n : Nat) (steps : List String) : dropSteps n steps <:+ steps := by
  fun_induction dropSteps n steps with
  | case1 => exact List.suffix_refl _
  | case2 => exact List.suffix_refl _
  | case3 n s steps hs ih => exact ih.trans (List.suffix_cons s steps)
  | case4 n s steps hs ih => exact ih.trans (List.suffix_cons s steps)

theorem length_anchor_le (a : Anchor) : a.components.length ≤ 1 := by
  cases a <;> decide

theorem dropIdleEnd_eq_nil {steps : List String} (h : denoting steps = []) :
    dropIdleEnd steps = [] := by
  apply List.rdropWhile_eq_nil_iff.mpr
  intro s hs
  simpa using List.filter_eq_nil_iff.mp h s hs

theorem components_empty : components ⟨""⟩ = [] := by decide

/-- What a path cut from another one denotes. Only an empty text denotes nothing. -/
structure Denotes (p : Path) (cs : List Component) : Prop where
  components : p.components = cs
  raw : p.raw = "" ↔ cs = []

theorem denotes_empty : Denotes ⟨""⟩ [] := ⟨components_empty, by simp⟩

theorem denotes_of_ne_nil {p : Path} {cs : List Component} (h : p.components = cs) (hne : cs ≠ []) :
    Denotes p cs := by
  refine ⟨h, ⟨?_, fun hcs => absurd hcs hne⟩⟩
  intro hraw
  obtain rfl : p = ⟨""⟩ := by
    cases p
    exact congrArg Path.mk hraw
  exact h.symm.trans components_empty

/-- Steps without an anchor, the first of which denotes something if there is one. -/
theorem denotes_intercalate {steps : List String} (hsteps : ∀ s ∈ steps, IsStep s)
    (hhead : ∀ s, steps.head? = some s → isIdle s = false) :
    Denotes ⟨"/".intercalate (dropIdleEnd steps)⟩ ((denoting steps).map stepComponent) := by
  by_cases hnone : denoting steps = []
  · rw [hnone, dropIdleEnd_eq_nil hnone]
    exact denotes_empty
  refine denotes_of_ne_nil ?_ (by simpa using hnone)
  obtain ⟨first, hfirst⟩ : ∃ s, (dropIdleEnd steps).head? = some s := by
    cases hend : dropIdleEnd steps with
    | nil =>
      rw [← denoting_dropIdleEnd, hend] at hnone
      exact absurd rfl hnone
    | cons s rest => exact ⟨s, rfl⟩
  have hidle : isIdle first = false := by
    obtain ⟨rest, hrest⟩ := dropIdleEnd_initial steps
    apply hhead
    rw [← hrest, List.head?_append, hfirst]
    rfl
  have hsteps' : ∀ s ∈ dropIdleEnd steps, IsStep s := fun s hs =>
    hsteps s ((dropIdleEnd_initial steps).subset hs)
  rw [components_eq, split_intercalate hsteps' hfirst hidle, denoting_dropIdleEnd]
  rfl

theorem split_root {steps : List String} (hne : steps ≠ []) (hsteps : ∀ s ∈ steps, IsStep s) :
    split ⟨"/".intercalate ("" :: steps)⟩ = ⟨.root, steps⟩ := by
  obtain ⟨s, rest, rfl⟩ := List.exists_cons_of_ne_nil hne
  have hpieces := pieces_intercalate (List.cons_ne_nil "" (s :: rest))
    (List.forall_mem_cons.mpr ⟨by simp [IsStep], hsteps⟩)
  unfold pieces at hpieces
  unfold split
  rw [hpieces]
  rfl

theorem split_here {steps : List String} (hsteps : ∀ s ∈ steps, IsStep s) :
    split ⟨"/".intercalate ("." :: steps)⟩ = ⟨.here, steps⟩ := by
  have hpieces := pieces_intercalate (List.cons_ne_nil "." steps)
    (List.forall_mem_cons.mpr ⟨by simp [IsStep], hsteps⟩)
  unfold pieces at hpieces
  unfold split
  rw [hpieces]
  rfl

/-- The first steps of a path, from where it starts. -/
theorem denotes_ofSplit {p : Path} {steps : List String} (h : steps <+: p.split.steps) :
    Denotes (ofSplit ⟨p.split.anchor, dropIdleEnd steps⟩)
      (p.split.anchor.components ++ (denoting steps).map stepComponent) := by
  have hsteps : ∀ s ∈ steps, IsStep s := fun s hs => isStep_of_mem_split (h.subset hs)
  have hend : ∀ s ∈ dropIdleEnd steps, IsStep s := fun s hs =>
    hsteps s ((dropIdleEnd_initial _).subset hs)
  rcases p.split_cases with ⟨_, _, -, he⟩ | ⟨_, -, he⟩ | ⟨he, hhead⟩
  · rw [he, ← denoting_dropIdleEnd]
    refine denotes_of_ne_nil ?_ (by simp [Anchor.components])
    by_cases hnone : dropIdleEnd steps = []
    · simp only [ofSplit, hnone]
      decide
    · have hraw : "/" ++ "/".intercalate (dropIdleEnd steps) =
          "/".intercalate ("" :: dropIdleEnd steps) := by
        obtain ⟨s, rest, hcons⟩ := List.exists_cons_of_ne_nil hnone
        rw [hcons, ← String.toList_inj]
        simp
      simp only [ofSplit, hraw]
      rw [components_eq, split_root hnone hend]
  · rw [he, ← denoting_dropIdleEnd]
    refine denotes_of_ne_nil ?_ (by simp [Anchor.components])
    simp only [ofSplit]
    rw [components_eq, split_here hend]
  · rw [he] at h ⊢
    obtain ⟨more, hmore⟩ := h
    dsimp only at hmore
    cases steps with
    | nil => exact denotes_empty
    | cons first rest =>
      have hfirst : p.pieces.head? = some first := by rw [← hmore]; rfl
      rcases hhead with hempty | hhead
      · rw [hempty] at hmore
        obtain ⟨rfl, hrest⟩ := List.cons.inj hmore
        obtain rfl := (List.append_eq_nil_iff.mp hrest).1
        exact denotes_empty
      · exact denotes_intercalate hsteps fun s hs => hhead s (hfirst.trans hs)

/-- A path without the steps at its end that denote nothing is the same path. -/
theorem denotes_trimmed (p : Path) :
    Denotes (ofSplit ⟨p.split.anchor, dropIdleEnd p.split.steps⟩) p.components :=
  denotes_ofSplit (List.prefix_refl _)

/-- What remains of a path below a base denotes what follows the base. -/
theorem denotes_stripBase? {p base : Path} (h : base.components <+: p.components) :
    ∃ rest, p.stripBase? base = some rest ∧
      Denotes rest (p.components.drop base.components.length) := by
  unfold stripBase?
  simp only [ List.isPrefixOf_iff_prefix.mpr h, if_true]
  split
  · rename_i hempty
    rw [List.isEmpty_iff.mp hempty]
    exact ⟨_, rfl, denotes_trimmed p⟩
  · rename_i hcut
    refine ⟨_, rfl, ?_⟩
    generalize hk : base.components.length - p.split.anchor.components.length = k
    have hdrop : p.components.drop base.components.length =
        (denoting ((dropSteps k p.split.steps).dropWhile isIdle)).map stepComponent := by
      have hlen : p.split.anchor.components.length ≤ base.components.length := by
        have hone := length_anchor_le p.split.anchor
        have hpos : 0 < base.components.length := by
          rw [List.length_pos_iff]
          simpa using hcut
        omega
      rw [components_eq p, List.drop_append, List.drop_eq_nil_of_le hlen, List.nil_append, hk,
        denoting_dropWhile, denoting_dropSteps, List.map_drop]
    rw [hdrop]
    apply denotes_intercalate
    · intro s hs
      have hs' := (dropSteps_suffix k p.split.steps).subset ((List.dropWhile_suffix _).subset hs)
      exact isStep_of_mem_split hs'
    · intro s hs
      have hfirst := List.head?_dropWhile_not isIdle (dropSteps k p.split.steps)
      rwa [hs] at hfirst

theorem stripBase?_eq_none {p base : Path} (h : ¬base.components <+: p.components) :
    p.stripBase? base = none := by
  unfold stripBase?
  simp [h]

/-- A file below a root: only names follow the root, and the last of them has an extension. -/
structure Below (root file : Path) : Prop where
  names : ∃ names : List String, names ≠ [] ∧
    file.components = root.components ++ names.map .name
  extension : file.extension?.isSome = true

namespace Below

variable {root file other : Path}

theorem congr (h : Below root file) (hsame : file.components = other.components) :
    Below root other where
  names := hsame ▸ h.names
  extension := by
    have hname : other.fileName? = file.fileName? := by
      rw [fileName?, fileName?, hsame]
    rw [extension?, hname]
    exact h.extension

end Below

/-- The names of a path are text: there is no byte in them that is no part of a character. -/
def IsUtf8 (p : Path) : Prop := ∀ n ∈ p.names, isText n = true

instance (p : Path) : Decidable p.IsUtf8 := inferInstanceAs (Decidable (∀ n ∈ p.names, _))

theorem IsUtf8.congr {p q : Path} (h : p.IsUtf8) (hsame : p.components = q.components) :
    q.IsUtf8 := by
  unfold IsUtf8 names at h ⊢
  rwa [← hsame]

theorem IsUtf8.of_components {p : Path} {initial : List Component} {names : List String}
    (h : p.IsUtf8) (hp : p.components = initial ++ names.map .name) :
    ∀ n ∈ names, isText n = true := by
  intro n hn
  refine h n (List.mem_filterMap.mpr ⟨.name n, ?_, rfl⟩)
  rw [hp]
  exact List.mem_append_right _ (List.mem_map_of_mem hn)

theorem names_of_components {p : Path} {names : List String} (h : p.components = names.map .name) :
    p.names = names := by
  rw [Path.names, h, List.filterMap_map]
  exact List.filterMap_some

/-- Names between separators are known from the text. -/
theorem intercalate_injective {names others : List String} (hnames : names ≠ [])
    (hothers : others ≠ []) (hn : ∀ n ∈ names, IsStep n) (ho : ∀ n ∈ others, IsStep n)
    (h : "/".intercalate names = "/".intercalate others) : names = others := by
  rw [← pieces_intercalate hnames hn, h, pieces_intercalate hothers ho]

theorem eq_of_stepComponent {s n : String} (h : stepComponent s = .name n) : s = n := by
  unfold stepComponent at h
  split at h
  · cases h
  · exact Component.name.inj h

theorem isStep_of_mem_components {p : Path} {n : String} (hn : .name n ∈ p.components) :
    IsStep n := by
  rcases List.mem_append.mp hn with hn | hn
  · cases hanchor : p.split.anchor <;> simp [hanchor, Anchor.components] at hn
  · obtain ⟨s, hs, hname⟩ := List.mem_map.mp hn
    obtain rfl := eq_of_stepComponent hname
    exact isStep_of_mem_split (List.mem_filter.mp hs).1

theorem isStep_of_below {root file : Path} {names : List String}
    (h : file.components = root.components ++ names.map .name) : ∀ n ∈ names, IsStep n := by
  intro n hn
  apply isStep_of_mem_components (p := file)
  rw [h]
  exact List.mem_append_right _ (List.mem_map_of_mem hn)

end Path

namespace Generation.OutputPaths

open TypeLoom.Path

variable {p : OutputPaths} {file other : Path}

/-- The place of a file depends on its components alone. -/
theorem relative_names_congr (h : file.components = other.components) :
    (p.relative file).names = (p.relative other).names := by
  have hname : file.fileName? = other.fileName? := by
    rw [fileName?, fileName?, h]
  by_cases hbase : p.schemaRoot.components <+: file.components
  · obtain ⟨rest, hstrip, hrest⟩ := denotes_stripBase? hbase
    obtain ⟨rest', hstrip', hrest'⟩ := denotes_stripBase? (h ▸ hbase)
    rw [← h] at hrest'
    have hraw : rest.raw.isEmpty = rest'.raw.isEmpty := by
      rw [Bool.eq_iff_iff, String.isEmpty_iff, String.isEmpty_iff, hrest.raw, hrest'.raw]
    have hnames : rest.names = rest'.names := by
      rw [Path.names, Path.names, hrest.components, hrest'.components]
    simp only [relative, hstrip, hstrip', hraw, hname]
    split
    · rfl
    · exact hnames
  · simp only [relative, stripBase?_eq_none hbase, stripBase?_eq_none (h ▸ hbase), hname]

theorem typesImportPath_congr (h : file.components = other.components) :
    p.typesImportPath file = p.typesImportPath other := by
  rw [typesImportPath, typesImportPath, joinImport, joinImport, relative_names_congr h]

/-- Names that are text are shown as they are. -/
theorem map_shown {names : List String} (h : ∀ n ∈ names, isText n = true) :
    names.map shown = names :=
  (List.map_congr_left fun n hn => if_pos (h n hn)).trans (List.map_id _)

/-- A file below the root has its place by what remains of it: the names that lead to it. -/
theorem relative_spec {names : List String} (hne : names ≠ [])
    (h : file.components = p.schemaRoot.components ++ names.map .name) :
    file.stripBase? p.schemaRoot = some (p.relative file) ∧
      Denotes (p.relative file) (names.map .name) := by
  have hbase : p.schemaRoot.components <+: file.components := h ▸ List.prefix_append _ _
  obtain ⟨rest, hstrip, hrest⟩ := denotes_stripBase? hbase
  rw [h, List.drop_left] at hrest
  have hraw : rest.raw.isEmpty = false := by
    rw [Bool.eq_false_iff, ne_eq, String.isEmpty_iff, hrest.raw]
    simpa using hne
  have hrelative : p.relative file = rest := by
    simp [relative, hstrip, hraw]
  rw [hrelative]
  exact ⟨hstrip, hrest⟩

theorem relative_names {names : List String} (hne : names ≠ [])
    (h : file.components = p.schemaRoot.components ++ names.map .name) :
    (p.relative file).names = names :=
  names_of_components (relative_spec hne h).2.components

theorem joinImport_eq_iff (lead : String) (a b : Path) :
    joinImport lead a = joinImport lead b ↔
      "/".intercalate (a.names.map shown) = "/".intercalate (b.names.map shown) := by
  unfold joinImport
  dsimp only
  split
  · exact Iff.rfl
  · split
    · exact String.append_right_inj _
    · exact String.append_right_inj _

/-- Two files below the root have one import path only if the same names lead to both, if these are
text. -/
theorem typesImportPath_eq_iff {names others : List String} (hne : names ≠ []) (hne' : others ≠ [])
    (h : file.components = p.schemaRoot.components ++ names.map .name)
    (h' : other.components = p.schemaRoot.components ++ others.map .name)
    (htext : file.IsUtf8) (htext' : other.IsUtf8) :
    p.typesImportPath file = p.typesImportPath other ↔ names = others := by
  rw [typesImportPath, typesImportPath, joinImport_eq_iff, relative_names hne h,
    relative_names hne' h', map_shown (htext.of_components h), map_shown (htext'.of_components h')]
  exact ⟨intercalate_injective hne hne' (isStep_of_below h) (isStep_of_below h'),
    congrArg ("/".intercalate ·)⟩

/-- A file below the root is imported as the shared file is only if it has the name of that. -/
theorem typesImportPath_eq_shared_iff {names : List String} (hne : names ≠ [])
    (h : file.components = p.schemaRoot.components ++ names.map .name) (htext : file.IsUtf8) :
    p.typesImportPath file = p.sharedImportPath ↔ names = ["index"] := by
  have hindex : (⟨"index"⟩ : Path).names.map shown = ["index"] := by decide
  rw [typesImportPath, sharedImportPath, joinImport_eq_iff, relative_names hne h, hindex,
    map_shown (htext.of_components h)]
  exact ⟨intercalate_injective hne (by simp) (isStep_of_below h) (by simp [IsStep]),
    congrArg ("/".intercalate ·)⟩

/-- Files below the root have one import path only if they are the same path. -/
theorem typesImportPath_injective (hfile : Below p.schemaRoot file)
    (hother : Below p.schemaRoot other) (htext : file.IsUtf8) (htext' : other.IsUtf8)
    (h : p.typesImportPath file = p.typesImportPath other) :
    file.components = other.components := by
  obtain ⟨names, hne, hnames⟩ := hfile.names
  obtain ⟨others, hne', hothers⟩ := hother.names
  rw [hnames, hothers, (typesImportPath_eq_iff hne hne' hnames hothers htext htext').mp h]

/-- Two names that are no text are shown alike. -/
example : joinImport "app" ⟨"x\x00\u00ff.graphql"⟩ = "app/x\ufffd.graphql" ∧
    joinImport "app" ⟨"x\x00\u00fe.graphql"⟩ = "app/x\ufffd.graphql" := by
  decide +kernel

/-- No file with an extension has the name of the shared file. -/
theorem names_ne_index {names : List String} (hfile : Below p.schemaRoot file)
    (h : file.components = p.schemaRoot.components ++ names.map .name) : names ≠ ["index"] := by
  rintro rfl
  have hextension := hfile.extension
  simp [extension?, fileName?, h] at hextension
  exact absurd hextension (by decide)

/-- No file with an extension is imported as the shared file is. -/
theorem typesImportPath_ne_shared (hfile : Below p.schemaRoot file) (htext : file.IsUtf8) :
    p.typesImportPath file ≠ p.sharedImportPath := by
  obtain ⟨names, hne, hnames⟩ := hfile.names
  rw [ne_eq, typesImportPath_eq_shared_iff hne hnames htext]
  exact names_ne_index hfile hnames

end Generation.OutputPaths

end TypeLoom
