import TypeLoom.Proofs.Collection.Settings
import TypeLoom.Proofs.Plugins.Discovery
import TypeLoom.Proofs.Plugins.Regeneration

/-!
# Dry runs

A dry run and a run in earnest of the same plugins differ in what two plugins do with files and in
how they end. Main statements: a dry run changes no tree and ends at the gate, and a plugin that acts
in earnest reports what it reports in a dry run, unless the file system fails.
-/

namespace TypeLoom.Plugins

open Files Files.Tree Pipeline Collected Generation
open ResolverModule (Parser)

variable {α β : Type}

/-! ### Trees in dry runs -/

/-- A step that changes no tree in a dry run. -/
structure Calm [Parser] (x : Running (StateM Tree) α) : Prop where
  preliminary : Preliminary x
  advancing : Advancing x
  still : ∀ p t, Underway p t → p.context.settings.dryRun = true → (exec x p t).world = t

theorem Calm.bind [Parser] {x : Running (StateM Tree) α} {f : α → Running (StateM Tree) β}
    (hx : Calm x) (hf : ∀ a, Calm (f a)) : Calm (x >>= f) where
  preliminary := hx.preliminary.bind fun a => (hf a).preliminary
  advancing := hx.advancing.bind fun a => (hf a).advancing
  still p t h hdry := by
    have hnext := hx.preliminary p t h
    have hgrows := (hx.advancing p t h.appending).context
    have hstill := hx.still p t h hdry
    rw [exec_bind]
    generalize exec x p t = r at hnext hgrows hstill ⊢
    obtain ⟨outcome, q, v⟩ := r
    obtain rfl : v = t := hstill
    cases outcome with
    | error e => rfl
    | ok a => exact (hf a).still q v hnext (hgrows.dryRun.trans hdry)

theorem calm_checkpoint [Parser] : Calm checkpoint where
  preliminary := preliminary_checkpoint
  advancing := advancing_checkpoint
  still p t _ _ := by
    rw [exec_checkpoint]
    split <;> rfl

theorem calm_configure [Parser] : Calm configure where
  preliminary := preliminary_configure
  advancing := advancing_configure
  still p t h _ := by
    obtain ⟨r, hr, -⟩ := configureAll_eq p.baseDir h.builtIn p.context
    rw [exec_configure, hr]
    rfl

theorem calm_collectAndValidate [Parser] : Calm collectAndValidate where
  preliminary := preliminary_collectAndValidate
  advancing := advancing_collectAndValidate
  still p t h _ := by
    rw [exec_collectAndValidate]
    cases p.context.document with
    | none => rfl
    | some d =>
      obtain ⟨c, hc, -⟩ := collecting_eq h.builtIn d
      dsimp only
      rw [hc]
      rfl

theorem calm_filePhase [Parser] {phase : Phase}
    {act : Phases (StateM Tree) → Context → Action (StateM Tree) Report}
    (hmild : ∀ l, BuiltIn l → ∀ c, Mild (act l.phases c))
    (hstill : ∀ l, BuiltIn l → ∀ c, c.settings.dryRun = true → Still (act l.phases c).run) :
    Calm (filePhase phase act) where
  preliminary := preliminary_filePhase hmild
  advancing := advancing_filePhase phase act
  still p t h hdry := by
    have hworld : (gather (fun l => act l.phases p.context) (p.participants phase) t).2 = t :=
      gather_still fun l hl => hstill l (h.builtIn l (List.mem_of_mem_filter hl)) p.context hdry t
    rw [exec_filePhase]
    generalize gather (fun l => act l.phases p.context) (p.participants phase) t = asked at hworld ⊢
    obtain ⟨_ | rs, v⟩ := asked <;> exact hworld

theorem still_loadReport (source : Option SchemaSource) :
    Still (loadReport source : Action (StateM Tree) _).run := worldAfter_loadReport source

theorem prepare_dry (output : Option Output) {c : Context} (h : c.settings.dryRun = true) :
    (prepare output c : Action (StateM Tree) Report) = pure .empty := by
  unfold prepare
  rw [h]
  cases output <;> rfl

theorem writeDeclarations_dry {c : Context} (h : c.settings.dryRun = true) :
    (writeDeclarations c : Action (StateM Tree) Report) =
      declarationPaths declarationsId c >>= fun paths => pure (.ofProblems (emit c paths).2) := by
  unfold writeDeclarations
  congr 1
  funext paths
  rcases emit c paths with ⟨modules, _ | ⟨problem, problems⟩⟩
  · show (if c.settings.dryRun = true then pure .empty else _ : Action (StateM Tree) Report) = _
    rw [if_pos h]
    rfl
  · rfl

namespace BuiltIn

variable {l : LoadedPlugin (StateM Tree)} {c : Context}

theorem still_initial [Parser] (h : BuiltIn l) (hdry : c.settings.dryRun = true) :
    Still (l.phases.initial c).run := by
  cases h with
  | schema value source => exact still_loadReport source
  | declarations value output =>
    show Still (prepare output c : Action (StateM Tree) Report).run
    rw [prepare_dry output hdry]
    exact still_run_pure _
  | resolvers value output =>
    show Still (prepare output c : Action (StateM Tree) Report).run
    rw [prepare_dry output hdry]
    exact still_run_pure _
  | requestContext value => exact still_run_pure _

theorem still_collected [Parser] (h : BuiltIn l) (hdry : c.settings.dryRun = true) :
    Still (l.phases.collected c).run := by
  cases h with
  | schema value source => exact still_run_pure _
  | declarations value output =>
    show Still (writeDeclarations c : Action (StateM Tree) Report).run
    rw [writeDeclarations_dry hdry]
    exact (still_outputPaths _ _ _ c).run_bind fun _ => still_run_pure _
  | resolvers value output => exact (still_outputPaths _ _ _ c).run_bind fun _ => still_run_pure _
  | requestContext value => exact still_run_pure _

end BuiltIn

theorem calm_initial [Parser] : Calm (filePhase .initial (·.initial)) :=
  calm_filePhase (fun _ h c => h.mild_initial c) fun _ h _ hdry => h.still_initial hdry

theorem calm_collected [Parser] : Calm (filePhase .collected (·.collected)) :=
  calm_filePhase (fun _ h c => h.mild_collected c) fun _ h _ hdry => h.still_collected hdry

theorem calm_untilSecondCheckpoint [Parser] : Calm untilSecondCheckpoint :=
  (calm_configure.bind fun _ => calm_initial.bind fun _ => calm_collectAndValidate).bind fun _ =>
    calm_checkpoint.bind fun _ => calm_collected

/-- A dry run ends at the gate. -/
theorem exec_phases_dry [Parser] {p : Pipeline (StateM Tree)} {t : Tree} (h : Underway p t)
    (hdry : p.context.settings.dryRun = true) :
    exec phases p t =
      ⟨(exec untilSecondCheckpoint p t).shut, (exec untilSecondCheckpoint p t).pipeline, t⟩ := by
  have hshut : ¬ Opens p t := fun hopens => by
    have hgrows := (calm_untilSecondCheckpoint.advancing p t h.appending).context
    rw [Opens, hgrows.dryRun, hdry] at hopens
    exact Bool.noConfusion hopens.2
  rw [exec_phases_of_not_opens hshut, calm_untilSecondCheckpoint.still p t h hdry]

/-! ### Actions in earnest -/

/-- An action that fails only where the file system does. -/
def FileBound (x : Action (StateM Tree) α) : Prop :=
  ∀ t e, answer x.run t = .error e → ∃ p problem, e = .fileSystem p problem

theorem fileBound_pure (a : α) : FileBound (pure a) := fun _ _ h => by cases h

theorem FileBound.bind {x : Action (StateM Tree) α} {f : α → Action (StateM Tree) β}
    (hx : FileBound x) (hf : ∀ a, FileBound (f a)) : FileBound (x >>= f) := by
  intro t e h
  rw [answer_run_bind] at h
  cases ha : answer x.run t with
  | error e' =>
    rw [ha] at h
    cases h
    exact hx t e ha
  | ok a =>
    rw [ha] at h
    exact hf a _ e h

theorem fileBound_onFile (p : Path) (x : StateM Tree (Except OsError α)) :
    FileBound (onFile p x) := by
  intro t e h
  rw [(run_onFile p x t).1] at h
  cases ha : answer x t with
  | error e' =>
    rw [ha] at h
    cases h
    exact ⟨_, _, rfl⟩
  | ok a =>
    rw [ha] at h
    cases h

theorem fileBound_writeFile (p : Path) (text : String) :
    FileBound (writeFile p text : Action (StateM Tree) _) := by
  have hready : FileBound (readyFile p) := by
    unfold readyFile
    split
    · split
      · exact fileBound_pure ()
      · exact fileBound_onFile _ _
    · exact fileBound_pure ()
  rw [writeFile_eq]
  exact hready.bind fun _ => fileBound_onFile _ _

theorem fileBound_writeFiles (files : List (Path × String)) :
    FileBound (writeFiles files : Action (StateM Tree) _) := by
  have heach : FileBound (writeEach files) := by
    induction files with
    | nil => exact fileBound_pure ()
    | cons f files ih => exact (fileBound_writeFile f.1 f.2).bind fun _ => ih
  rw [writeFiles_eq]
  exact heach.bind fun _ => fileBound_pure _

theorem fileBound_prepare (output : Option Output) (c : Context) :
    FileBound (prepare output c : Action (StateM Tree) _) := by
  rcases prepare_cases output c with h | ⟨q, h⟩
  · rw [h]
    exact fileBound_pure _
  · rw [h]
    exact (fileBound_onFile _ _).bind fun _ => fileBound_pure _

/-- Reports that say the same of a schema. -/
structure Agrees (r r' : Report) : Prop where
  documents : r'.documents = r.documents
  problems : r'.problems = r.problems

theorem Agrees.refl (r : Report) : Agrees r r := ⟨rfl, rfl⟩

theorem FileBound.alike {E : Failure → Prop} {x : Action (StateM Tree) α} (hx : FileBound x)
    {R : β → α → Prop} {b : β} {t : Tree} (h : ∀ a, answer x.run t = .ok a → R b a) :
    Alike E R (.ok b) (answer x.run t) := by
  cases ha : answer x.run t with
  | error e =>
    obtain ⟨p, problem, rfl⟩ := hx t e ha
    exact .right p problem _
  | ok a => exact .ok (h a ha)

theorem FileBound.alike_eq {E : Failure → Prop} {x : Action (StateM Tree) α} (hx : FileBound x)
    {t t' : Tree}
    (h : ∀ a a', answer x.run t = .ok a → answer x.run t' = .ok a' → a = a') :
    Alike E Eq (answer x.run t) (answer x.run t') := by
  cases ha : answer x.run t with
  | error e =>
    obtain ⟨p, problem, rfl⟩ := hx t e ha
    exact .left p problem _
  | ok a => exact hx.alike fun a' ha' => h a a' ha ha'

section

variable {c : Context} {t t' : Tree} {S : Tree → Prop}

/-- The reports of two actions, of which the second is in earnest and leaves a tree of which `S`
holds. -/
abbrev Reports (S : Tree → Prop) (x y : Action (StateM Tree) Report) (t t' : Tree) : Prop :=
  Alike (fun _ => True) (fun r r' => Agrees r r' ∧ S (worldAfter y.run t')) (answer x.run t)
    (answer y.run t')

theorem reports_pure (r : Report) (hS : S t') : Reports S (pure r) (pure r) t t' :=
  .ok ⟨.refl r, hS⟩

theorem reports_prepare (output : Option Output) (hdry : c.settings.dryRun = true)
    (hS : ∀ q, S (worldAfter (makeDirectories q : Action (StateM Tree) _).run t')) (hS' : S t') :
    Reports S (prepare output c) (prepare output c.earnest) t t' := by
  rw [Reports, prepare_dry output hdry]
  refine (fileBound_prepare output c.earnest).alike fun r hr => ?_
  rcases prepare_cases output c.earnest with h | ⟨q, h⟩
  · rw [h] at hr ⊢
    cases hr
    exact ⟨.refl _, hS'⟩
  · rw [h] at hr ⊢
    obtain ⟨-, rfl⟩ := reporting_ok hr
    rw [(run_reporting _ _ t').2]
    exact ⟨.refl _, hS q⟩

theorem answer_loadReport (s : SchemaSource) (t : Tree) :
    answer (loadReport (some s) : Action (StateM Tree) _).run t =
      (answer (s.load : Action (StateM Tree) _).run t).map .ofDocument :=
  (still_load s).answer_run_bind _ t

theorem reports_loadReport {s : SchemaSource} (hs : t.Sound) (h : Furnished t t') {k : Files.Kind}
    (hk : t.kind s.path = .ok k) (hS : S t') :
    Reports S (loadReport (some s)) (loadReport (some s)) t t' := by
  rw [Reports, answer_loadReport, answer_loadReport]
  refine ((SchemaSource.load_alike hs (.refl t) h hk).imp (fun _ _ => trivial) fun _ _ h => h).map
    fun d d' hd => ?_
  rw [hd, worldAfter_loadReport]
  exact ⟨.refl _, hS⟩

/-- Where files go is the same in both runs. -/
theorem reports_declarationPaths (plugin : String) (hinput : inputIsFile c t' = inputIsFile c t)
    {f f' : OutputPaths → Action (StateM Tree) Report}
    (hf : ∀ paths, Reports S (f paths) (f' paths) t t') :
    Reports S (declarationPaths plugin c >>= f) (declarationPaths plugin c.earnest >>= f') t t' := by
  have hinput' : inputIsFile c.earnest t' = inputIsFile c t := hinput
  rw [Reports, answer_run_bind, answer_run_bind, worldAfter_run_bind, declarationPaths,
    declarationPaths, answer_outputPaths, answer_outputPaths, worldAfter_outputPaths,
    worldAfter_outputPaths, hinput', c.outputPaths?_earnest, c.schemaInput_earnest]
  cases c.settings.outputPaths? (inputIsFile c t) with
  | none => exact .error trivial
  | some paths => exact hf paths

theorem writeDeclarations_earnest (c : Context) :
    (writeDeclarations c.earnest : Action (StateM Tree) Report) =
      declarationPaths declarationsId c.earnest >>= fun paths =>
        if (emit c paths).2 = [] then
          writeFiles ((emitShared c paths :: (emit c paths).1).map fun e => (e.output, e.text))
        else pure (.ofProblems (emit c paths).2) := by
  unfold writeDeclarations
  congr 1
  funext paths
  rw [c.emit_earnest, c.emitShared_earnest]
  rcases emit c paths with ⟨modules, _ | ⟨problem, problems⟩⟩ <;> rfl

theorem reports_writeDeclarations (hdry : c.settings.dryRun = true)
    (hinput : inputIsFile c t' = inputIsFile c t)
    (hS : ∀ files r, answer (writeFiles files : Action (StateM Tree) _).run t' = .ok r →
      S (worldAfter (writeFiles files : Action (StateM Tree) _).run t')) (hS' : S t') :
    Reports S (writeDeclarations c) (writeDeclarations c.earnest) t t' := by
  rw [writeDeclarations_dry hdry, writeDeclarations_earnest]
  refine reports_declarationPaths declarationsId hinput fun paths => ?_
  split
  · rename_i hnone
    rw [hnone]
    refine (fileBound_writeFiles _).alike fun r hr => ⟨?_, hS _ r hr⟩
    rw [writeFiles_eq] at hr
    obtain ⟨-, rfl⟩ := reporting_ok hr
    exact ⟨rfl, rfl⟩
  · exact reports_pure _ hS'

theorem reports_reportConflicts (hinput : inputIsFile c t' = inputIsFile c t) (hS : S t') :
    Reports S (reportConflicts c) (reportConflicts c.earnest) t t' :=
  reports_declarationPaths resolversId hinput fun paths => by
    rw [c.updates_earnest]
    exact reports_pure _ hS

end

namespace BuiltIn

variable {l : LoadedPlugin (StateM Tree)} {c : Context} {t t' : Tree}

theorem reports_initial [Parser] (h : BuiltIn l) (hdry : c.settings.dryRun = true) (hs : t.Sound)
    (hsource : l.plugin.id = schemaId → ∃ s, l.phases = schemaPhases (some s) ∧
      ∃ k, t.kind s.path = .ok k)
    (hfurnished : t'.Sound ∧ Furnished t t') :
    Reports (fun v => v.Sound ∧ Furnished t v) (l.phases.initial c) (l.phases.initial c.earnest) t
      t' := by
  have hprepare : ∀ q, (worldAfter (makeDirectories q : Action (StateM Tree) _).run t').Sound ∧
      Furnished t (worldAfter (makeDirectories q : Action (StateM Tree) _).run t') := by
    intro q
    refine ⟨keeps_makeDirectories q t' hfurnished.1, hfurnished.2.trans ?_⟩
    rw [makeDirectories, (run_onFile q _ t').2]
    exact furnished_createLineage hfurnished.1 _
  cases h with
  | schema value source =>
    obtain ⟨s, hphases, k, hk⟩ := hsource rfl
    dsimp only at hphases ⊢
    rw [hphases]
    exact reports_loadReport hs hfurnished.2 hk hfurnished
  | declarations value output => exact reports_prepare output hdry hprepare hfurnished
  | resolvers value output => exact reports_prepare output hdry hprepare hfurnished
  | requestContext value => exact reports_pure _ hfurnished

theorem reports_collected [Parser] (h : BuiltIn l) (hdry : c.settings.dryRun = true)
    (hinput : InputStands c t) (hlater : t'.Sound ∧ Later t t') :
    Reports (fun v => v.Sound ∧ Later t v) (l.phases.collected c) (l.phases.collected c.earnest) t
      t' := by
  have hfile := hinput.inputIsFile_eq hlater.2
  cases h with
  | schema value source => exact reports_pure _ hlater
  | declarations value output =>
    refine reports_writeDeclarations hdry hfile (fun files r hr => ?_) hlater
    have hwrites := restrained_writeFiles files _ t' r hlater.1 hr (.refl _)
    exact ⟨hwrites.sound, hlater.2.trans hwrites.later⟩
  | resolvers value output => exact reports_reportConflicts hfile hlater
  | requestContext value => exact reports_pure _ hlater

end BuiltIn

end TypeLoom.Plugins
