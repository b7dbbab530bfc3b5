import TypeLoom.Proofs.Files.Tidy
import TypeLoom.Proofs.Path.Modules
import TypeLoom.Proofs.Plugins.Discovery
import TypeLoom.Proofs.Schema.Loaded

/-!
# Generated files and the schema files they are for

A search finds each file once, by the names that lead to it below the directory that is searched, and
these names decide where its declarations go. A schema file that is named itself may have any name.
Main statement: what is generated for the files of a source goes to different places and is imported
from different paths, and no place is that of the snapshot. The place of the shared file is taken, and
its import path with it, only by a file that is named itself and is called `index`. Import paths are
text, so they tell files apart only if the names of these are.
-/

namespace TypeLoom.Files.Tree

open TypeLoom.Path

theorem Proper.plain {name : String} (h : Proper name) : Plain ⟨name⟩ :=
  plain_step h.step (fun hhere => absurd (hhere ▸ h.active) (by decide)) h.down

theorem Proper.components {name : String} (h : Proper name) :
    components ⟨name⟩ = [.name name] := by
  have hpieces : pieces ⟨name⟩ = [name] :=
    @pieces_intercalate [name] (by simp) (by simpa using h.step)
  have hname : stepComponent name = .name name := if_neg (by simpa using h.down)
  rw [components_eq_startOf, h.plain.startOf_eq, List.nil_append, stepComponents, hpieces]
  simp [denoting, h.active, hname]

end TypeLoom.Files.Tree

namespace TypeLoom.Plugins

open Files Files.Tree Pipeline Generation TypeLoom.Path

/-- Different files to which names alone lead from a directory. -/
structure Spread (dir : Path) (files : List Path) : Prop where
  below : ∀ f ∈ files, ∃ names : List String, names ≠ [] ∧
    f.components = dir.components ++ names.map .name
  distinct : files.Pairwise fun f g => f.components ≠ g.components

namespace SchemaSource

variable {s : SchemaSource} {t : Tree} {files : List Path}

/-- A search finds different files below the directory. -/
theorem spread_filesBelow (ht : t.Tidy) {depth : Nat} {ancestors : List Ancestor} {dir : Path}
    (h : answer (s.filesBelow depth ancestors dir : Action (StateM Tree) _).run t = .ok files) :
    Spread dir files := by
  induction depth generalizing ancestors dir files with
  | zero => cases h
  | succ depth ih =>
    obtain ⟨place, found, -, hfound, rfl⟩ := filesBelow_ok h
    have hname : ∀ name ∈ inOrder (t.namesIn place), name ∈ t.namesIn place :=
      fun name hname => (List.mergeSort_perm _ _).mem_iff.mp hname
    -- What a name in the directory stands for is found by a path that goes on with it.
    have hunder : ∀ name ∈ t.namesIn place,
        (∀ f ∈ found name, ∃ names : List String,
          f.components = dir.components ++ (name :: names).map .name) ∧
        (found name).Pairwise fun f g => f.components ≠ g.components := by
      intro name hmem
      have hproper := ht.proper_of_mem_namesIn hmem
      have hjoin : (dir.join ⟨name⟩).components = dir.components ++ [.name name] := by
        rw [hproper.plain.components_join, hproper.components]
      have hanswer := hfound name hmem
      rw [answer_filesAt] at hanswer
      split at hanswer
      · cases hanswer
      · rw [← Except.ok.inj hanswer]
        split
        · exact ⟨fun f hf => ⟨[], by rw [List.mem_singleton.mp hf]; exact hjoin⟩,
            List.pairwise_singleton _ _⟩
        · exact ⟨by simp, List.Pairwise.nil⟩
      · rw [← Except.ok.inj hanswer]
        exact ⟨by simp, List.Pairwise.nil⟩
      · split at hanswer
        · cases hanswer
        · split at hanswer
          · cases hanswer
          · obtain ⟨hbelow, hdistinct⟩ := ih hanswer
            refine ⟨fun f hf => ?_, hdistinct⟩
            obtain ⟨names, -, hnames⟩ := hbelow f hf
            exact ⟨names, by rw [hnames, hjoin, List.append_assoc]; rfl⟩
    constructor
    case below =>
      intro f hf
      obtain ⟨name, hmem, hf⟩ := List.mem_flatMap.mp hf
      obtain ⟨names, hnames⟩ := (hunder name (hname name hmem)).1 f hf
      exact ⟨name :: names, List.cons_ne_nil _ _, hnames⟩
    case distinct =>
      refine List.pairwise_flatMap.mpr ⟨fun name hmem => (hunder name (hname name hmem)).2, ?_⟩
      have hnodup : (inOrder (t.namesIn place)).Nodup :=
        (List.mergeSort_perm _ _).nodup_iff.mpr (ht.namesIn_nodup place)
      refine hnodup.imp_of_mem fun {a b} ha hb hne f hf g hg heq => ?_
      obtain ⟨names, hnames⟩ := (hunder a (hname a ha)).1 f hf
      obtain ⟨others, hothers⟩ := (hunder b (hname b hb)).1 g hg
      rw [hnames, hothers, OutputPaths.names_eq_iff] at heq
      exact hne (List.cons.inj heq).1

/-- Files that a search accepts have an extension. -/
theorem extension_of_filesBelow {depth : Nat} {ancestors : List Ancestor} {dir : Path}
    (h : answer (s.filesBelow depth ancestors dir : Action (StateM Tree) _).run t = .ok files) :
    ∀ f ∈ files, f.extension?.isSome = true := by
  intro f hf
  have haccepts := (kind_of_filesBelow h f hf).2
  unfold accepts at haccepts
  cases hextension : f.extension? with
  | some e => rfl
  | none =>
    rw [hextension] at haccepts
    cases haccepts

/-- A source that is a file named as the shared file is. -/
structure IsIndex (s : SchemaSource) (t : Tree) : Prop where
  file : t.kind s.path = .ok .file
  name : s.path.fileName? = some "index"

variable {paths : OutputPaths}

/-- The files of a source are different files below the schema root. Only if the source is a file
that is named as the shared file is, that name alone leads to one of them. -/
theorem files_spread (ht : t.Tidy)
    (hfiles : answer (s.files : Action (StateM Tree) _).run t = .ok files)
    (hroot : paths.schemaRoot =
      if answer (isFile s.path : StateM Tree Bool) t then s.path.parent?.getD ⟨""⟩ else s.path) :
    Spread paths.schemaRoot files ∧
      ((∃ f ∈ files, f.components = paths.schemaRoot.components ++ ["index"].map .name) ↔
        s.IsIndex t) := by
  rw [answer_isFile] at hroot
  rw [answer_files] at hfiles
  split at hfiles
  · rename_i hkind
    obtain rfl := Except.ok.inj hfiles
    obtain ⟨name, hname⟩ := fileName?_of_file hkind
    rw [if_pos (by simpa using hkind)] at hroot
    have hown : s.path.components = paths.schemaRoot.components ++ [name].map .name := by
      rw [hroot]
      exact components_parent hname
    refine ⟨⟨?_, List.pairwise_singleton _ _⟩, ?_⟩
    · intro f hf
      rw [List.mem_singleton.mp hf]
      exact ⟨[name], List.cons_ne_nil _ _, hown⟩
    · constructor
      · rintro ⟨f, hf, hindex⟩
        rw [List.mem_singleton.mp hf, hown, OutputPaths.names_eq_iff] at hindex
        exact ⟨hkind, List.singleton_inj.mp hindex ▸ hname⟩
      · rintro ⟨-, hindex⟩
        obtain rfl := Option.some.inj (hname.symm.trans hindex)
        exact ⟨s.path, List.mem_singleton_self _, hown⟩
  · rename_i hkind
    split at hfiles
    · cases hfiles
    · rw [if_neg (by simp [hkind])] at hroot
      have hspread := spread_filesBelow ht hfiles
      have hextension := extension_of_filesBelow hfiles
      rw [← hroot] at hspread
      refine ⟨hspread, iff_of_false ?_ fun hindex => ?_⟩
      · rintro ⟨f, hf, hindex⟩
        have hbelow : Below paths.schemaRoot f := ⟨hspread.below f hf, hextension f hf⟩
        exact OutputPaths.names_ne_index hbelow hindex rfl
      · cases hkind.symm.trans hindex.file
  · cases hfiles

end SchemaSource

/-- Generated files for the files of a source, which go to different places under different import
paths. Those of the shared file are taken if the source is a file of its name, and only then. -/
structure GoApart (s : SchemaSource) (t : Tree) (paths : OutputPaths) (files : List Path) :
    Prop where
  modules : files.Pairwise fun f g => (paths.typesModule f).same (paths.typesModule g) = false
  imports : (∀ f ∈ files, f.IsUtf8) →
    files.Pairwise fun f g => paths.typesImportPath f ≠ paths.typesImportPath g
  snapshot : ∀ f ∈ files, (paths.typesModule f).same paths.snapshot = false
  shared : (∃ f ∈ files, (paths.typesModule f).same paths.sharedModule = true) ↔ s.IsIndex t
  sharedImport : (∀ f ∈ files, f.IsUtf8) →
    ((∃ f ∈ files, paths.typesImportPath f = paths.sharedImportPath) ↔ s.IsIndex t)

theorem Spread.apart {s : SchemaSource} {t : Tree} {paths : OutputPaths} {files : List Path}
    (h : Spread paths.schemaRoot files)
    (hindex : (∃ f ∈ files, f.components = paths.schemaRoot.components ++ ["index"].map .name) ↔
      s.IsIndex t) : GoApart s t paths files := by
  -- What takes the place of the shared file is known from the names that lead to it.
  have hshared : ∀ taken : Path → Prop, (∀ f ∈ files, ∀ names, names ≠ [] →
        f.components = paths.schemaRoot.components ++ names.map .name →
        (taken f ↔ names = ["index"])) →
      ((∃ f ∈ files, taken f) ↔ s.IsIndex t) := by
    intro taken htaken
    rw [← hindex]
    refine exists_congr fun f => and_congr_right fun hf => ?_
    obtain ⟨names, hne, hnames⟩ := h.below f hf
    rw [htaken f hf names hne hnames, hnames, OutputPaths.names_eq_iff]
  constructor
  case modules =>
    refine h.distinct.imp_of_mem fun {f g} hf hg hdistinct => ?_
    obtain ⟨names, hne, hnames⟩ := h.below f hf
    obtain ⟨others, hne', hothers⟩ := h.below g hg
    rw [same_eq_false_iff, ne_eq, OutputPaths.typesModule_eq_iff hne hne' hnames hothers]
    rintro rfl
    exact hdistinct (hnames.trans hothers.symm)
  case imports =>
    intro htext
    refine h.distinct.imp_of_mem fun {f g} hf hg hdistinct => ?_
    obtain ⟨names, hne, hnames⟩ := h.below f hf
    obtain ⟨others, hne', hothers⟩ := h.below g hg
    rw [ne_eq, OutputPaths.typesImportPath_eq_iff hne hne' hnames hothers (htext f hf) (htext g hg)]
    rintro rfl
    exact hdistinct (hnames.trans hothers.symm)
  case snapshot =>
    intro f hf
    obtain ⟨names, hne, hnames⟩ := h.below f hf
    exact same_eq_false_iff.mpr (OutputPaths.typesModule_ne_snapshot hne hnames)
  case shared =>
    refine hshared _ fun f _ names hne hnames => ?_
    rw [same_iff, OutputPaths.typesModule_eq_shared_iff hne hnames]
  case sharedImport =>
    exact fun htext => hshared _ fun f hf names hne hnames =>
      OutputPaths.typesImportPath_eq_shared_iff hne hnames (htext f hf)

/-- The declarations for the files of a source, whatever the directory and the import path for
declarations are. -/
theorem declaration_files_apart {s : SchemaSource} {t : Tree} (ht : t.Tidy) {files : List Path}
    (hfiles : answer (s.files : Action (StateM Tree) _).run t = .ok files) (settings : Settings)
    (hinput : settings.schemaInput = some s.path) {paths : OutputPaths}
    (hpaths : settings.outputPaths? (answer (isFile s.path : StateM Tree Bool) t) = some paths) :
    GoApart s t paths files := by
  have hroot : paths.schemaRoot =
      if answer (isFile s.path : StateM Tree Bool) t then s.path.parent?.getD ⟨""⟩ else s.path := by
    unfold Settings.outputPaths? at hpaths
    obtain ⟨input, hinput', hrest⟩ := Option.bind_eq_some_iff.mp hpaths
    obtain rfl := Option.some.inj (hinput.symm.trans hinput')
    obtain ⟨output, -, houtput⟩ := Option.bind_eq_some_iff.mp hrest
    rw [← Option.some.inj houtput]
  obtain ⟨hspread, hindex⟩ := SchemaSource.files_spread ht hfiles hroot
  exact hspread.apart hindex

/-- A directory with a schema file, another one of the same name below it, and a file without an
extension. -/
def shelfTree : Tree :=
  ⟨[], [(["schema"], .directory), (["schema", "index"], .file []),
    (["schema", "Query.graphql"], .file []), (["schema", "user"], .directory),
    (["schema", "user", "Query.graphql"], .file [])]⟩

/-- The directory as a source. -/
def shelf : SchemaSource := .create ⟨"schema"⟩ ["graphql"]

/-- The file without an extension as a source. -/
def loneIndex : SchemaSource := .create ⟨"schema/index"⟩ ["graphql"]

def outputSettings (s : SchemaSource) : Settings :=
  { Settings.empty with
    schemaInput := some s.path, typesOutput := some ⟨"out"⟩, typesImport := some "app" }

theorem files_shelf : answer (shelf.files : Action (StateM Tree) _).run shelfTree =
    .ok [⟨"schema/Query.graphql"⟩, ⟨"schema/user/Query.graphql"⟩] := by
  have hkind : shelfTree.kind ⟨"schema"⟩ = .ok .directory := rfl
  have hplace : shelfTree.canonical ⟨"schema"⟩ = .ok ⟨"/schema"⟩ := rfl
  have hnames : shelfTree.names ⟨"schema"⟩ = .ok ["index", "Query.graphql", "user"] := rfl
  have hsorted : SchemaSource.inOrder ["index", "Query.graphql", "user"] =
      ["Query.graphql", "index", "user"] := by
    simp [SchemaSource.inOrder, List.mergeSort]
  have hfound : ((["Query.graphql", "index", "user"].mapM fun name =>
      answer (shelf.filesAt 4095 [⟨⟨"schema"⟩, ⟨"/schema"⟩⟩] (join ⟨"schema"⟩ ⟨name⟩)).run
        shelfTree).toOption) =
      some [[⟨"schema/Query.graphql"⟩], [], [⟨"schema/user/Query.graphql"⟩]] := by
    decide +kernel
  have hbelow : answer (shelf.filesBelow (4095 + 1) [⟨⟨"schema"⟩, ⟨"/schema"⟩⟩] ⟨"schema"⟩ :
      Action (StateM Tree) _).run shelfTree =
        .ok [⟨"schema/Query.graphql"⟩, ⟨"schema/user/Query.graphql"⟩] := by
    rw [SchemaSource.answer_filesBelow, hnames]
    dsimp only
    rw [hsorted, eq_ok_of_toOption hfound]
    rfl
  have hpath : shelf.path = ⟨"schema"⟩ := rfl
  rw [SchemaSource.answer_files, hpath, hkind]
  dsimp only
  rw [hplace]
  exact hbelow

/-- What is generated for the directory goes apart. With the file alone as its source, it takes the
place of the shared file. -/
theorem declaration_files_apart_of_shelf :
    shelfTree.Tidy ∧
      (∃ paths, (outputSettings shelf).outputPaths?
          (answer (isFile shelf.path : StateM Tree Bool) shelfTree) = some paths ∧
        GoApart shelf shelfTree paths
          [⟨"schema/Query.graphql"⟩, ⟨"schema/user/Query.graphql"⟩]) ∧
      ∃ paths, answer (loneIndex.files : Action (StateM Tree) _).run shelfTree =
          .ok [⟨"schema/index"⟩] ∧
        (outputSettings loneIndex).outputPaths?
          (answer (isFile loneIndex.path : StateM Tree Bool) shelfTree) = some paths ∧
        (paths.typesModule ⟨"schema/index"⟩).same paths.sharedModule = true := by
  have htidy : shelfTree.Tidy := by decide
  have hfiles : answer (loneIndex.files : Action (StateM Tree) _).run shelfTree =
      .ok [⟨"schema/index"⟩] := by
    rw [SchemaSource.answer_files]
    rfl
  have hindex : loneIndex.IsIndex shelfTree := ⟨rfl, by decide +kernel⟩
  refine ⟨htidy, ⟨_, rfl, ?_⟩, _, hfiles, rfl, ?_⟩
  · exact declaration_files_apart htidy files_shelf (outputSettings shelf) rfl rfl
  · have hapart := declaration_files_apart htidy hfiles (outputSettings loneIndex) rfl rfl
    obtain ⟨f, hf, hshared⟩ := hapart.shared.mpr hindex
    rwa [List.mem_singleton.mp hf] at hshared

end TypeLoom.Plugins
