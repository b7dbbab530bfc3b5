import Mathlib.Data.List.Induction
import Mathlib.Data.List.Nodup
import TypeLoom.Proofs.Schema.Loaded
import TypeLoom.Proofs.Schema.Positions
import TypeLoom.Proofs.Sorting

/-!
# Files in another order

The same files, read in another order, make a document with the same definitions, and those of each
file stand in the same order in it. A document is reordered when nothing but the order of its files
has changed; each file is spelt in one way then, and no two fields of it have one position.
-/

namespace TypeLoom.Schema

namespace Document

/-- The definitions of a document that stand in a file. -/
def definitionsIn (d : Document) (file : Path) : List SourcedDefinition :=
  d.definitions.filter (·.file.same file)

/-- A document and one of the same files in another order. -/
structure Reordered (d d' : Document) : Prop where
  definitions : d.definitions.Perm d'.definitions
  files : d.sourceFiles.Perm d'.sourceFiles
  each : ∀ file, d.definitionsIn file = d'.definitionsIn file
  spelt : ∀ x ∈ d.definitions, ∀ y ∈ d.definitions,
    x.file.components = y.file.components → x.file = y.file
  positions : ∀ file, ((d.definitionsIn file).flatMap
    fun x => Reading.fieldPositions x.definition).Nodup
  loaded : d.Loaded
  loaded' : d'.Loaded

/-- What one file contributes: its definitions, and itself if there are any. -/
structure OfFile (file : Path) (d : Document) : Prop where
  definitions : ∀ x ∈ d.definitions, x.file = file
  sourceFiles : d.sourceFiles.Sublist [file]
  positions : (d.definitions.flatMap fun x => Reading.fieldPositions x.definition).Nodup

theorem ofFile_parsed {f : Path × String} (h : Readable f) : OfFile f.1 (parsed f) := by
  obtain ⟨e, he⟩ := h
  rw [parsed_of_parse he]
  unfold parse at he
  split at he
  · cases he
    exact ⟨nofun, List.nil_sublist _, List.nodup_nil⟩
  · split at he
    · rename_i defs hread
      cases he
      unfold append
      split
      · exact ⟨nofun, List.nil_sublist _, List.nodup_nil⟩
      · refine ⟨?_, List.Sublist.refl _, ?_⟩
        · intro x hx
          obtain ⟨y, -, rfl⟩ := List.mem_map.mp hx
          rfl
        · have hascending := Reading.read_ascending hread
          simp only [empty, List.nil_append, List.flatMap_map]
          exact hascending.imp fun hlt => hlt.ne
    · cases he

theorem concat_append (ds : List Document) (e : Document) :
    concat (ds ++ [e]) = (concat ds).union e := by
  simp [concat]

theorem concat_definitions (ds : List Document) :
    (concat ds).definitions = ds.flatMap (·.definitions) := by
  induction ds using List.reverseRecOn with
  | nil => rfl
  | append_singleton ds e ih =>
    rw [concat_append, union, List.flatMap_append, ih, List.flatMap_singleton]

/-- Paths that are new are added at the end. -/
theorem foldl_addFile_eq {files more : List Path}
    (h : (files ++ more).Pairwise fun f g => f.components ≠ g.components) :
    more.foldl addFile files = files ++ more := by
  induction more generalizing files with
  | nil => simp
  | cons f more ih =>
    have hnew : files.any (·.same f) = false := by
      rw [List.any_eq_false]
      intro g hg
      rw [Bool.not_eq_true, Path.same_eq_false_iff]
      exact (List.pairwise_append.mp h).2.2 g hg f List.mem_cons_self
    rw [List.foldl_cons, addFile_of_new hnew, ih (by simpa using h)]
    simp

theorem concat_sourceFiles {ds : List Document}
    (h : (ds.flatMap (·.sourceFiles)).Pairwise fun f g => f.components ≠ g.components) :
    (concat ds).sourceFiles = ds.flatMap (·.sourceFiles) := by
  induction ds using List.reverseRecOn with
  | nil => rfl
  | append_singleton ds e ih =>
    rw [List.flatMap_append, List.flatMap_singleton] at h ⊢
    have hds := (List.pairwise_append.mp h).1
    rw [concat_append, union, ih hds, foldl_addFile_eq h]

section

variable {files files' : List (Path × String)}

/-- Of different files, the definitions in one are those that were read from it. -/
theorem definitionsIn_parsed (h : ∀ f ∈ files, Readable f) (file : Path) :
    (concat (files.map parsed)).definitionsIn file =
      (files.filter (·.1.same file)).flatMap fun f => (parsed f).definitions := by
  rw [definitionsIn, concat_definitions, List.flatMap_map, List.filter_flatMap]
  induction files with
  | nil => rfl
  | cons f files ih =>
    obtain ⟨hf, hrest⟩ := List.forall_mem_cons.mp h
    have hfile := (ofFile_parsed hf).definitions
    rw [List.flatMap_cons, ih hrest, List.filter_cons]
    cases hsame : f.1.same file with
    | true =>
      rw [if_pos rfl, List.flatMap_cons, List.filter_eq_self.mpr fun x hx => hfile x hx ▸ hsame]
    | false =>
      rw [if_neg Bool.false_ne_true, List.filter_eq_nil_iff.mpr fun x hx => by
        rw [hfile x hx, hsame]; exact Bool.false_ne_true, List.nil_append]

theorem sourceFiles_sublist (h : ∀ f ∈ files, Readable f) :
    ((files.map parsed).flatMap (·.sourceFiles)).Sublist (files.map (·.1)) := by
  induction files with
  | nil => exact List.Sublist.refl _
  | cons f files ih =>
    obtain ⟨hf, hrest⟩ := List.forall_mem_cons.mp h
    exact (ofFile_parsed hf).sourceFiles.append (ih hrest)

/-- At most one file is the one with a given path. -/
theorem filter_same_cases (hfiles : (files.map (·.1.components)).Nodup) (file : Path) :
    files.filter (·.1.same file) = [] ∨ ∃ f, files.filter (·.1.same file) = [f] := by
  have hle : (files.filter (·.1.same file)).length ≤ 1 := by
    have hcount := List.nodup_iff_count_le_one.mp hfiles file.components
    rw [List.count, List.countP_map, List.countP_eq_length_filter] at hcount
    exact hcount
  cases hfound : files.filter (·.1.same file) with
  | nil => exact Or.inl rfl
  | cons f rest =>
    rw [hfound] at hle
    obtain rfl : rest = [] := List.length_eq_zero_iff.mp (Nat.le_zero.mp (Nat.le_of_succ_le_succ hle))
    exact Or.inr ⟨f, rfl⟩

/-- Files of which no two are the same path may be read in any order. -/
theorem reordered_parseAll (hperm : files.Perm files')
    (hfiles : (files.map (·.1.components)).Nodup) {d : Document} (h : parseAll files = .ok d) :
    ∃ d', parseAll files' = .ok d' ∧ Reordered d d' := by
  obtain ⟨hread, rfl⟩ := parseAll_eq_ok.mp h
  have hread' : ∀ f ∈ files', Readable f := fun f hf => hread f (hperm.mem_iff.mpr hf)
  have hfiles' := (hperm.map (·.1.components)).nodup hfiles
  have h' := parseAll_eq_ok.mpr ⟨hread', rfl⟩
  refine ⟨_, h', ?_⟩
  have hdistinct : ∀ {files : List (Path × String)}, (files.map (·.1.components)).Nodup →
      (∀ f ∈ files, Readable f) → ((files.map parsed).flatMap (·.sourceFiles)).Pairwise
        fun f g => f.components ≠ g.components := by
    intro files hfiles hread
    refine List.Pairwise.sublist (sourceFiles_sublist hread) ?_
    exact List.pairwise_map.mpr (List.pairwise_map.mp hfiles)
  constructor
  case definitions =>
    rw [concat_definitions, concat_definitions]
    exact (hperm.map parsed).flatMap_right _
  case files =>
    rw [concat_sourceFiles (hdistinct hfiles hread), concat_sourceFiles (hdistinct hfiles' hread')]
    exact (hperm.map parsed).flatMap_right _
  case each =>
    intro file
    rw [definitionsIn_parsed hread, definitionsIn_parsed hread']
    exact congrArg _ (Sorting.filter_eq_of_perm hperm hfiles file.components)
  case spelt =>
    have hfrom : ∀ x ∈ (concat (files.map parsed)).definitions, ∃ f ∈ files, x.file = f.1 := by
      intro x hx
      rw [concat_definitions, List.flatMap_map] at hx
      obtain ⟨f, hf, hx⟩ := List.mem_flatMap.mp hx
      exact ⟨f, hf, (ofFile_parsed (hread f hf)).definitions x hx⟩
    intro x hx y hy hsame
    obtain ⟨f, hf, hxf⟩ := hfrom x hx
    obtain ⟨g, hg, hyg⟩ := hfrom y hy
    rw [hxf, hyg] at hsame ⊢
    rw [List.inj_on_of_nodup_map hfiles hf hg hsame]
  case positions =>
    intro file
    rw [definitionsIn_parsed hread]
    rcases filter_same_cases hfiles file with hnone | ⟨f, hone⟩
    · rw [hnone]
      exact List.nodup_nil
    · have hf : f ∈ files := List.mem_of_mem_filter (hone ▸ List.mem_singleton_self f)
      rw [hone, List.flatMap_singleton]
      exact (ofFile_parsed (hread f hf)).positions
  case loaded => exact loaded_parseAll h
  case loaded' => exact loaded_parseAll h'

end

end Document

end TypeLoom.Schema
