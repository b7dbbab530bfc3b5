import Mathlib.Data.List.Nodup
import TypeLoom.Schema.Document

/-!
# The files that a document lists

A document keeps two lists, its definitions and the files they stand in, and what adds to one adds
to the other. A document is indexed if its files are those of its definitions, each at the place and
in the spelling in which it first comes up. Documents that are joined stay indexed; joining is
associative, and the empty document makes no difference.
-/

namespace TypeLoom.Path

theorem same_iff {p q : Path} : p.same q = true ↔ p.components = q.components := by
  simp [same]

theorem same_eq_false_iff {p q : Path} : p.same q = false ↔ p.components ≠ q.components := by
  rw [Bool.eq_false_iff, ne_eq, same_iff]

/-- The different paths of a list, each at its first place and in the spelling it has there. -/
def firsts : List Path → List Path
  | [] => []
  | p :: ps => p :: (firsts ps).filter (!p.same ·)

theorem firsts_sublist (ps : List Path) : (firsts ps).Sublist ps := by
  induction ps with
  | nil => exact List.Sublist.refl []
  | cons p ps ih => exact (List.filter_sublist.trans ih).cons_cons p

end TypeLoom.Path

namespace TypeLoom.Schema.Document

/-! ### Adding files -/

theorem addFile_of_same {files : List Path} {f file : Path} (hf : f ∈ files)
    (h : f.components = file.components) : addFile files file = files := by
  have hany : files.any (·.same file) = true := List.any_eq_true.mpr ⟨f, hf, Path.same_iff.mpr h⟩
  rw [addFile, if_pos hany]

theorem addFile_of_new {files : List Path} {file : Path} (h : files.any (·.same file) = false) :
    addFile files file = files ++ [file] := by
  rw [addFile, h]
  rfl

theorem subset_addFile (files : List Path) (file : Path) : files ⊆ addFile files file := by
  unfold addFile
  split
  · exact List.Subset.refl files
  · exact List.subset_append_left files [file]

theorem exists_mem_addFile (files : List Path) (file : Path) :
    ∃ f ∈ addFile files file, f.components = file.components := by
  unfold addFile
  split
  · rename_i h
    obtain ⟨f, hf, hsame⟩ := List.any_eq_true.mp h
    exact ⟨f, hf, Path.same_iff.mp hsame⟩
  · exact ⟨file, List.mem_append_right files List.mem_cons_self, rfl⟩

theorem distinct_addFile {files : List Path} (file : Path)
    (h : files.Pairwise fun f g => f.components ≠ g.components) :
    (addFile files file).Pairwise fun f g => f.components ≠ g.components := by
  unfold addFile
  split
  · exact h
  · rename_i hnew
    refine List.pairwise_append.mpr ⟨h, List.pairwise_singleton _ _, ?_⟩
    intro f hf g hg
    obtain rfl := List.mem_singleton.mp hg
    have hother := (List.any_eq_false.mp (Bool.eq_false_iff.mpr hnew)) f hf
    exact Path.same_eq_false_iff.mp (Bool.eq_false_iff.mpr hother)

/-- No file is lost, and every one that is added is there, under some spelling. -/
theorem foldl_addFile_covers (files more : List Path) :
    files ⊆ more.foldl addFile files ∧
    ∀ g ∈ more, ∃ f ∈ more.foldl addFile files, f.components = g.components := by
  induction more generalizing files with
  | nil => exact ⟨List.Subset.refl files, by simp⟩
  | cons file more ih =>
    obtain ⟨hsub, hmore⟩ := ih (addFile files file)
    refine ⟨List.Subset.trans (subset_addFile files file) hsub, ?_⟩
    obtain ⟨f, hf, hfile⟩ := exists_mem_addFile files file
    exact List.forall_mem_cons.mpr ⟨⟨f, hsub hf, hfile⟩, hmore⟩

theorem distinct_foldl_addFile {files : List Path} (more : List Path)
    (h : files.Pairwise fun f g => f.components ≠ g.components) :
    (more.foldl addFile files).Pairwise fun f g => f.components ≠ g.components := by
  induction more generalizing files with
  | nil => exact h
  | cons file more ih => exact ih (distinct_addFile file h)

/-- Of the files that are added, those go to the end that are not there yet, once each. -/
theorem foldl_addFile_firsts (files more : List Path) :
    more.foldl addFile files =
      files ++ (Path.firsts more).filter fun p => !files.any (·.same p) := by
  induction more generalizing files with
  | nil => simp [Path.firsts]
  | cons file more ih =>
    rw [List.foldl_cons, ih, Path.firsts, List.filter_cons, List.filter_filter]
    cases hany : files.any (·.same file) with
    | true =>
      obtain ⟨f, hf, hsame⟩ := List.any_eq_true.mp hany
      rw [addFile_of_same hf (Path.same_iff.mp hsame), if_neg (by simp)]
      refine congrArg (files ++ ·) (List.filter_congr fun p _ => ?_)
      cases hp : file.same p with
      | false => simp
      | true =>
        -- A path that is the added one is that of a file that is there.
        have hfp : f.same p = true :=
          Path.same_iff.mpr ((Path.same_iff.mp hsame).trans (Path.same_iff.mp hp))
        have hknown : files.any (·.same p) = true := List.any_eq_true.mpr ⟨f, hf, hfp⟩
        simp [hknown]
    | false =>
      rw [addFile_of_new hany, if_pos (by simp), List.append_assoc, List.singleton_append]
      refine congrArg (files ++ file :: ·) (List.filter_congr fun p _ => ?_)
      simp [List.any_append]

theorem firsts_eq_foldl (files : List Path) : Path.firsts files = files.foldl addFile [] := by
  rw [foldl_addFile_firsts, List.nil_append]
  exact (List.filter_eq_self.mpr fun _ _ => rfl).symm

/-- A file may be added to those that are to be added, or after them. -/
theorem foldl_addFile_addFile (files more : List Path) (file : Path) :
    (addFile more file).foldl addFile files = addFile (more.foldl addFile files) file := by
  cases hany : more.any (·.same file) with
  | true =>
    obtain ⟨f, hf, hsame⟩ := List.any_eq_true.mp hany
    obtain ⟨g, hg, hgf⟩ := (foldl_addFile_covers files more).2 f hf
    rw [addFile_of_same hf (Path.same_iff.mp hsame),
      addFile_of_same hg (hgf.trans (Path.same_iff.mp hsame))]
  | false => rw [addFile_of_new hany, List.foldl_append, List.foldl_cons, List.foldl_nil]

/-- The step of associativity that concerns the files. -/
theorem foldl_addFile_foldl (files more last : List Path) :
    (last.foldl addFile more).foldl addFile files =
      last.foldl addFile (more.foldl addFile files) := by
  induction last generalizing more with
  | nil => rfl
  | cons file last ih =>
    rw [List.foldl_cons, List.foldl_cons, ih, foldl_addFile_addFile]

/-- A file that is added again and again is added once. -/
theorem foldl_addFile_replicate (files : List Path) (file : Path) (n : Nat) :
    (List.replicate (n + 1) file).foldl addFile files = addFile files file := by
  induction n with
  | zero => rfl
  | succ n ih =>
    obtain ⟨f, hf, hsame⟩ := exists_mem_addFile files file
    rw [List.replicate_succ', List.foldl_append, ih, List.foldl_cons, List.foldl_nil,
      addFile_of_same hf hsame]

/-! ### The files of a document -/

/-- The source files are those of the definitions, no two of them the same path. -/
structure Listed (d : Document) : Prop where
  listed : ∀ x ∈ d.definitions, ∃ f ∈ d.sourceFiles, f.components = x.file.components
  distinct : d.sourceFiles.Pairwise fun f g => f.components ≠ g.components

theorem Listed.eq_of_components {d : Document} (hd : d.Listed) {f g : Path}
    (hf : f ∈ d.sourceFiles) (hg : g ∈ d.sourceFiles) (h : f.components = g.components) : f = g := by
  have hnodup : (d.sourceFiles.map Path.components).Nodup := List.pairwise_map.mpr hd.distinct
  exact List.inj_on_of_nodup_map hnodup hf hg h

/-- The source files are the different files of the definitions, in the order in which they come
up. None is listed twice or without a definition, and no definition is without its file. -/
structure Indexed (d : Document) : Prop extends Listed d where
  inOrder : d.sourceFiles = Path.firsts (d.definitions.map (·.file))
  used : ∀ f ∈ d.sourceFiles, ∃ x ∈ d.definitions, x.file = f

theorem indexed_iff {d : Document} :
    d.Indexed ↔ d.sourceFiles = (d.definitions.map (·.file)).foldl addFile [] := by
  rw [← firsts_eq_foldl]
  constructor
  · exact Indexed.inOrder
  · intro h
    refine ⟨⟨fun x hx => ?_, ?_⟩, h, fun f hf => ?_⟩
    · rw [h, firsts_eq_foldl]
      exact (foldl_addFile_covers [] _).2 x.file (List.mem_map_of_mem hx)
    · rw [h, firsts_eq_foldl]
      exact distinct_foldl_addFile _ List.Pairwise.nil
    · rw [h] at hf
      exact List.mem_map.mp ((Path.firsts_sublist _).subset hf)

theorem indexed_empty : Indexed empty := indexed_iff.mpr rfl

theorem Indexed.append {d : Document} (hd : d.Indexed) (file : Path) (defs : List Definition) :
    (d.append file defs).Indexed := by
  unfold Document.append
  split
  · exact hd
  · rename_i hne
    obtain ⟨x, defs, rfl⟩ := List.exists_cons_of_ne_nil (by simpa using hne)
    have hfiles : ((x :: defs).map fun y => (⟨file, y⟩ : SourcedDefinition)).map (·.file) =
        List.replicate (defs.length + 1) file := by
      simp [List.map_map, List.eq_replicate_iff]
    rw [indexed_iff, List.map_append, List.foldl_append, hfiles, foldl_addFile_replicate,
      ← indexed_iff.mp hd]

theorem Indexed.union {d e : Document} (hd : d.Indexed) (he : e.Indexed) : (d.union e).Indexed := by
  rw [indexed_iff, Document.union, List.map_append, List.foldl_append, ← indexed_iff.mp hd,
    indexed_iff.mp he, foldl_addFile_foldl, List.foldl_nil]

/-! ### Joining -/

@[simp]
theorem union_empty (d : Document) : d.union empty = d := by
  simp [union, empty]

theorem union_assoc (a b c : Document) : (a.union b).union c = a.union (b.union c) := by
  simp only [union, List.append_assoc, foldl_addFile_foldl]

/-- Files that stand in order are not moved by adding them to none. -/
theorem Indexed.empty_union {d : Document} (hd : d.Indexed) : empty.union d = d := by
  have hfiles : d.sourceFiles.foldl addFile [] = d.sourceFiles := by
    rw [indexed_iff.mp hd, foldl_addFile_foldl, List.foldl_nil]
  rw [Document.union, Document.empty, hfiles, List.nil_append]

theorem foldl_union (d : Document) (es : List Document) : es.foldl union d = d.union (concat es) := by
  induction es generalizing d with
  | nil => exact (union_empty d).symm
  | cons e es ih =>
    have hconcat : concat (e :: es) = (empty.union e).union (concat es) := ih (empty.union e)
    rw [List.foldl_cons, ih, hconcat, ← union_assoc, ← union_assoc, union_empty]

theorem concat_cons (d : Document) (es : List Document) :
    concat (d :: es) = (empty.union d).union (concat es) :=
  foldl_union (empty.union d) es

theorem empty_union_concat (ds : List Document) : empty.union (concat ds) = concat ds := by
  rw [← foldl_union, concat]

theorem concat_concat (ds es : List Document) :
    concat (concat ds :: es) = concat (ds ++ es) := by
  rw [concat_cons, empty_union_concat, ← foldl_union, concat, concat, List.foldl_append]

/-- What holds of the empty document and of two joined documents holds of all joined ones. -/
theorem concat_induction {P : Document → Prop} (hempty : P empty)
    (hunion : ∀ d e, P d → P e → P (d.union e)) {ds : List Document} (h : ∀ d ∈ ds, P d) :
    P (concat ds) := by
  unfold concat
  have hfold : ∀ d, P d → P (ds.foldl union d) := by
    clear hempty
    induction ds with
    | nil => exact fun d hd => hd
    | cons e es ih =>
      obtain ⟨he, hes⟩ := List.forall_mem_cons.mp h
      exact fun d hd => ih hes _ (hunion d e hd he)
  exact hfold empty hempty

end TypeLoom.Schema.Document
