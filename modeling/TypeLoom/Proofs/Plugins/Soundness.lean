import TypeLoom.Plugins.Registry
import TypeLoom.Proofs.Plugins.Updates

/-!
# Actions that keep a tree sound

Plugins work on files by the operations of a tree, so what stands in the tree after them stands in
directories if it did before.
-/

namespace TypeLoom.Plugins

open Files Files.Tree Pipeline Collected
open Generation (OutputPaths)

variable {ε α β : Type}

/-- An action after which a sound tree is sound. -/
def Keeps (x : StateM Tree α) : Prop := ∀ t, t.Sound → (worldAfter x t).Sound

theorem keeps_of_same {x : StateM Tree α} (h : ∀ t, worldAfter x t = t) : Keeps x :=
  fun t ht => (h t).symm ▸ ht

theorem keeps_run_pure (a : α) : Keeps (pure a : ExceptT ε (StateM Tree) α).run :=
  keeps_of_same fun _ => rfl

theorem keeps_run_throw (e : ε) : Keeps (throw e : ExceptT ε (StateM Tree) α).run :=
  keeps_of_same fun _ => rfl

theorem Keeps.run_bind {x : ExceptT ε (StateM Tree) α} {f : α → ExceptT ε (StateM Tree) β}
    (hx : Keeps x.run) (hf : ∀ a, Keeps (f a).run) : Keeps (x >>= f).run := by
  intro t ht
  rw [worldAfter_run_bind]
  split
  · exact hf _ _ (hx t ht)
  · exact hx t ht

theorem keeps_run_forM {f : α → ExceptT ε (StateM Tree) PUnit} (hf : ∀ a, Keeps (f a).run)
    (as : List α) : Keeps (as.forM f).run := by
  induction as with
  | nil => exact keeps_run_pure ()
  | cons a as ih => exact (hf a).run_bind fun _ => ih

/-- An action that changes no tree. -/
def Still (x : StateM Tree α) : Prop := ∀ t, worldAfter x t = t

theorem Still.keeps {x : StateM Tree α} (h : Still x) : Keeps x := keeps_of_same h

theorem still_run_pure (a : α) : Still (pure a : ExceptT ε (StateM Tree) α).run := fun _ => rfl

theorem still_run_throw (e : ε) : Still (throw e : ExceptT ε (StateM Tree) α).run := fun _ => rfl

theorem Still.run_lift {x : StateM Tree α} (hx : Still x) :
    Still (liftM x : ExceptT ε (StateM Tree) α).run := hx

theorem Still.run_bind {x : ExceptT ε (StateM Tree) α} {f : α → ExceptT ε (StateM Tree) β}
    (hx : Still x.run) (hf : ∀ a, Still (f a).run) : Still (x >>= f).run := by
  intro t
  rw [worldAfter_run_bind, hx]
  split
  · exact hf _ t
  · rfl

theorem still_run_mapM {f : α → ExceptT ε (StateM Tree) β} (hf : ∀ a, Still (f a).run)
    (as : List α) : Still (as.mapM f).run := by
  induction as with
  | nil => exact still_run_pure []
  | cons a as ih =>
    rw [List.mapM_cons]
    exact (hf a).run_bind fun _ => ih.run_bind fun _ => still_run_pure _

/-! ### Files -/

theorem still_isFile (p : Path) : Still (isFile p : StateM Tree Bool) :=
  fun t => worldAfter_hasKind t p .file

theorem still_isDirectory (p : Path) : Still (isDirectory p : StateM Tree Bool) :=
  fun t => worldAfter_hasKind t p .directory

theorem keeps_ensureDirectory (p : Path) : Keeps (ensureDirectory p : StateM Tree _) := by
  intro t ht
  rw [worldAfter_ensureDirectory]
  exact sound_createDirectory ht p

theorem keeps_createLineage (ps : List Path) : Keeps (createLineage ps : StateM Tree _) :=
  fun _ ht => createLineage_induction (fun p _ _ h => sound_createDirectory h p) ht

theorem keeps_createDirectories (p : Path) : Keeps (createDirectories p : StateM Tree _) :=
  keeps_createLineage _

theorem keeps_writeText (p : Path) (text : String) : Keeps (writeText p text : StateM Tree _) :=
  fun _ ht => sound_write ht p _

theorem still_readText (p : Path) : Still (readText p : ExceptT ReadProblem (StateM Tree) _).run :=
  fun t => worldAfter_readText t p

theorem run_onFile (p : Path) (x : StateM Tree (Except OsError α)) (t : Tree) :
    answer (onFile p x).run t = (answer x t).mapError (fun e => .fileSystem p (.os e)) ∧
      worldAfter (onFile p x).run t = worldAfter x t := by
  unfold onFile
  refine run_rethrow x (fun _ => ?_) (fun _ => ?_) t <;> rfl

theorem keeps_onFile {x : StateM Tree (Except OsError α)} (hx : Keeps x) (p : Path) :
    Keeps (onFile p x).run := by
  intro t ht
  rw [(run_onFile p x t).2]
  exact hx t ht

theorem keeps_makeDirectories (p : Path) : Keeps (makeDirectories p : Action (StateM Tree) _).run :=
  keeps_onFile (keeps_createDirectories p) p

/-- Creates the directory of a file. -/
def readyFile (p : Path) : Action (StateM Tree) Unit :=
  match p.parent? with
  | some parent => if parent.raw.isEmpty then pure () else makeDirectories parent
  | none => pure ()

theorem keeps_readyFile (p : Path) : Keeps (readyFile p).run := by
  unfold readyFile
  split
  · split
    · exact keeps_run_pure ()
    · exact keeps_makeDirectories _
  · exact keeps_run_pure ()

/-- A file is written once its directory is there. -/
theorem writeFile_eq (p : Path) (text : String) :
    writeFile p text = readyFile p >>= fun _ => onFile p (writeText p text) := by
  unfold writeFile readyFile
  cases p.parent? with
  | none => rfl
  | some parent =>
    dsimp only
    cases parent.raw.isEmpty <;> rfl

theorem keeps_writeFile (p : Path) (text : String) :
    Keeps (writeFile p text : Action (StateM Tree) _).run := by
  rw [writeFile_eq]
  exact (keeps_readyFile p).run_bind fun _ => keeps_onFile (keeps_writeText p text) p

/-- Whether the schema of a context is one file. -/
def inputIsFile (c : Context) (t : Tree) : Bool :=
  c.settings.schemaInput.any fun p => answer (isFile p : StateM Tree Bool) t

theorem answer_outputPaths (source target plugin : String) (c : Context) (t : Tree) :
    answer (outputPaths source target plugin c : Action (StateM Tree) _).run t =
      match c.settings.outputPaths? (inputIsFile c t) with
      | some paths => .ok paths
      | none => .error (.missingPlugin plugin
          (if c.settings.schemaInput.isNone then source else target)) := by
  unfold outputPaths inputIsFile
  cases c.settings.schemaInput with
  | none =>
    dsimp only
    rw [answer_run_bind, answer_run_pure]
    dsimp only [Option.any_none]
    cases c.settings.outputPaths? false <;> rfl
  | some p =>
    dsimp only
    rw [answer_run_bind, answer_run_lift]
    dsimp only [Option.any_some]
    cases c.settings.outputPaths? (answer (isFile p : StateM Tree Bool) t) <;> rfl

theorem worldAfter_outputPaths (source target plugin : String) (c : Context) (t : Tree) :
    worldAfter (outputPaths source target plugin c : Action (StateM Tree) _).run t = t := by
  unfold outputPaths
  cases c.settings.schemaInput with
  | none =>
    dsimp only
    rw [worldAfter_run_bind, answer_run_pure, worldAfter_run_pure]
    dsimp only
    split <;> rfl
  | some p =>
    dsimp only
    rw [worldAfter_run_bind, answer_run_lift, worldAfter_run_lift, isFile, worldAfter_hasKind]
    dsimp only
    split <;> rfl

theorem still_outputPaths (source target plugin : String) (c : Context) :
    Still (outputPaths source target plugin c : Action (StateM Tree) _).run :=
  worldAfter_outputPaths source target plugin c

/-- What is done where it is known where files go. -/
theorem run_declarationPaths (plugin : String) (c : Context)
    (f : OutputPaths → Action (StateM Tree) α) {t : Tree} {paths : OutputPaths}
    (h : c.settings.outputPaths? (inputIsFile c t) = some paths) :
    answer (declarationPaths plugin c >>= f).run t = answer (f paths).run t ∧
      worldAfter (declarationPaths plugin c >>= f).run t = worldAfter (f paths).run t := by
  rw [answer_run_bind, worldAfter_run_bind, declarationPaths, answer_outputPaths,
    worldAfter_outputPaths, h]
  exact ⟨rfl, rfl⟩

theorem exists_outputPaths_of_ok {plugin : String} {c : Context}
    {f : OutputPaths → Action (StateM Tree) α} {t : Tree} {r : α}
    (h : answer (declarationPaths plugin c >>= f).run t = .ok r) :
    ∃ paths, c.settings.outputPaths? (inputIsFile c t) = some paths := by
  rw [answer_run_bind, declarationPaths, answer_outputPaths] at h
  cases hpaths : c.settings.outputPaths? (inputIsFile c t) with
  | some paths => exact ⟨paths, rfl⟩
  | none =>
    rw [hpaths] at h
    cases h

/-! ### Loading a schema -/

theorem run_listed (p : Path) (x : StateM Tree (Except OsError α)) (t : Tree) :
    answer (SchemaSource.listed p x).run t =
        (answer x t).mapError (fun e => .fileSystem p (.listing p e)) ∧
      worldAfter (SchemaSource.listed p x).run t = worldAfter x t := by
  unfold SchemaSource.listed
  refine run_rethrow x (fun _ => ?_) (fun _ => ?_) t <;> rfl

theorem still_listed {x : StateM Tree (Except OsError α)} (hx : Still x) (p : Path) :
    Still (SchemaSource.listed p x).run := by
  intro t
  rw [(run_listed p x t).2]
  exact hx t

theorem still_filesBelow (s : SchemaSource) (depth : Nat) (ancestors : List SchemaSource.Ancestor)
    (dir : Path) : Still (s.filesBelow depth ancestors dir : Action (StateM Tree) _).run := by
  induction depth generalizing ancestors dir with
  | zero => exact still_run_throw _
  | succ depth ih =>
    refine (still_listed (fun _ => rfl) dir).run_bind fun names => ?_
    refine (still_run_mapM (fun name => ?_) _).run_bind fun _ => still_run_pure _
    refine (still_listed (fun _ => rfl) _).run_bind fun kind => ?_
    cases kind with
    | file => exact still_run_pure _
    | other => exact still_run_pure _
    | directory =>
      refine (still_listed (fun _ => rfl) _).run_bind fun place => ?_
      split
      · exact still_run_throw _
      · exact ih _ _

theorem still_files (s : SchemaSource) : Still (s.files : Action (StateM Tree) _).run := by
  refine (still_isFile s.path).run_lift.run_bind fun b => ?_
  split
  · exact still_run_pure _
  · refine (still_isDirectory s.path).run_lift.run_bind fun b => ?_
    split
    · exact (still_listed (fun _ => rfl) _).run_bind fun _ => still_filesBelow s _ _ _
    · exact still_run_throw _

/-- Loading a schema reads files only. -/
theorem still_load (s : SchemaSource) : Still (s.load : Action (StateM Tree) _).run := by
  refine (still_files s).run_bind fun files => ?_
  refine (still_run_mapM (fun file => ?_) files).run_bind fun sources => ?_
  · refine (still_readText file).run_lift.run_bind fun r => ?_
    split
    · exact still_run_pure _
    · exact still_run_throw _
  · cases SchemaSource.documentOf sources with
    | ok d => exact still_run_pure d
    | error e => exact still_run_throw e

/-! ### Reports that say nothing of modules -/

/-- An action that keeps trees sound and reports nothing of modules. -/
structure Mild (a : Action (StateM Tree) Report) : Prop where
  keeps : Keeps a.run
  modules : ∀ t r, answer a.run t = .ok r → r.mergedModules = [] ∧ r.moduleProblems = []

theorem mild_pure {r : Report} (h : r.mergedModules = [] ∧ r.moduleProblems = []) :
    Mild (pure r) where
  keeps := keeps_run_pure r
  modules t r' hr := by
    rw [answer_run_pure] at hr
    exact Except.ok.inj hr ▸ h

theorem Mild.bind {x : Action (StateM Tree) α} {f : α → Action (StateM Tree) Report}
    (hx : Keeps x.run) (hf : ∀ a, Mild (f a)) : Mild (x >>= f) where
  keeps := hx.run_bind fun a => (hf a).keeps
  modules t r hr := by
    obtain ⟨a, -, hrest, -⟩ := run_bind_ok hr
    exact (hf a).modules _ r hrest

theorem mild_loadReport (source : Option SchemaSource) : Mild (loadReport source) := by
  unfold loadReport
  cases source with
  | none => exact ⟨keeps_run_throw _, fun _ _ h => by cases h⟩
  | some s => exact .bind (still_load s).keeps fun _ => mild_pure ⟨rfl, rfl⟩

theorem mild_prepare (output : Option Output) (c : Context) : Mild (prepare output c) := by
  have hdone : Mild (pure Report.empty) := mild_pure ⟨rfl, rfl⟩
  unfold prepare
  cases output with
  | none => exact hdone
  | some o =>
    dsimp only
    split
    · exact hdone
    · exact .bind (keeps_makeDirectories o.path) fun _ => hdone

theorem mild_writeFiles (files : List (Path × String)) : Mild (writeFiles files) := by
  unfold writeFiles
  refine .bind (keeps_run_forM (fun f => ?_) files) fun _ => mild_pure ⟨rfl, rfl⟩
  exact keeps_writeFile f.1 f.2

theorem mild_writeDeclarations (c : Context) : Mild (writeDeclarations c) := by
  refine .bind (still_outputPaths _ _ _ c).keeps fun paths => ?_
  dsimp only
  split
  · exact mild_pure ⟨rfl, rfl⟩
  · split
    · exact mild_pure ⟨rfl, rfl⟩
    · exact mild_writeFiles _

theorem mild_reportConflicts (c : Context) : Mild (reportConflicts c) :=
  .bind (still_outputPaths _ _ _ c).keeps fun _ => mild_pure ⟨rfl, rfl⟩

theorem mild_writeSnapshot (c : Context) : Mild (writeSnapshot c) := by
  unfold writeSnapshot
  cases c.document with
  | none => exact mild_pure ⟨rfl, rfl⟩
  | some d => exact .bind (still_outputPaths _ _ _ c).keeps fun _ => mild_writeFiles _

end TypeLoom.Plugins
