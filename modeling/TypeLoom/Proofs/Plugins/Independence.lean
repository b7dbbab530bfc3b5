import TypeLoom.Proofs.Plugins.BuiltIn
import TypeLoom.Proofs.Plugins.Rewriting

/-!
# Resolver modules in a whole run

Main statement: in a run of the generator's own plugins that reaches its last phases, what becomes
of each resolver module is decided by what it held before. A module that fails does not keep the
others from being brought up to date, nor the schema from being written, and all modules that failed
are reported at the end.
-/

namespace TypeLoom.Plugins

open Files Files.Tree Pipeline Collected Generation
open ResolverModule (Parser Update updates)

/-- The updates that are due in a context, none if it is not known where files go. -/
def due (c : Context) (t : Tree) : List Update :=
  match c.settings.outputPaths? (inputIsFile c t) with
  | some paths => (updates c paths).1
  | none => []

theorem updateModules_eq [Parser] {c : Context} {t : Tree} {paths : OutputPaths}
    (h : c.settings.outputPaths? (inputIsFile c t) = some paths) :
    answer (updateModules c : Action (StateM Tree) _).run t =
        .ok (answer ((due c t).foldlM addUpdate .empty : StateM Tree _) t) ∧
      worldAfter (updateModules c : Action (StateM Tree) _).run t =
        worldAfter ((due c t).foldlM addUpdate .empty : StateM Tree _) t := by
  rw [updateModules, (run_declarationPaths _ c _ h).1, (run_declarationPaths _ c _ h).2, due, h]
  exact answer_run_foldlM_lift addUpdate _ _ t

/-! ### The snapshot of the schema -/

theorem outputPaths?_eq_some {s : Settings} {b : Bool} {paths : OutputPaths}
    (h : s.outputPaths? b = some paths) :
    ∃ input output, s.schemaInput = some input ∧ s.typesOutput = some output ∧
      paths.typesOutput = output := by
  unfold Settings.outputPaths? at h
  cases hinput : s.schemaInput with
  | none =>
    rw [hinput] at h
    cases h
  | some input =>
    cases houtput : s.typesOutput with
    | none =>
      rw [hinput, houtput] at h
      cases h
    | some output =>
      rw [hinput, houtput] at h
      exact ⟨input, output, rfl, rfl, Option.some.inj h ▸ rfl⟩

/-- Whether it is known where files go does not depend on what the schema is. -/
theorem exists_outputPaths {s : Settings} {b : Bool} {paths : OutputPaths}
    (h : s.outputPaths? b = some paths) (b' : Bool) : ∃ paths', s.outputPaths? b' = some paths' := by
  obtain ⟨input, output, hinput, houtput, -⟩ := outputPaths?_eq_some h
  unfold Settings.outputPaths?
  rw [hinput, houtput]
  exact ⟨_, rfl⟩

/-- A file that was written is read, whatever had to be created for it. -/
theorem textAt_writeFile {t : Tree} (hs : t.Sound) {p : Path} {text : String}
    (h : answer (writeFile p text : Action (StateM Tree) _).run t = .ok ()) :
    textAt (worldAfter (writeFile p text : Action (StateM Tree) _).run t) p = .ok (some text) := by
  obtain ⟨place, hplace⟩ := (written_of_writeFile hs h).holds
  exact textAt_of_trail hplace

/-- A snapshot that was written. -/
theorem writeSnapshot_ok {c : Context} {d : Schema.Document} (hd : c.document = some d) {t : Tree}
    {r : Report} (h : answer (writeSnapshot c : Action (StateM Tree) _).run t = .ok r) :
    ∃ paths, c.settings.outputPaths? (inputIsFile c t) = some paths ∧
      r = .ofWritten [paths.snapshot] ∧
      (t.Sound → textAt (worldAfter (writeSnapshot c : Action (StateM Tree) _).run t)
        paths.snapshot = .ok (some d.snapshot)) := by
  unfold writeSnapshot at h ⊢
  rw [hd] at h ⊢
  dsimp only at h ⊢
  obtain ⟨paths, hpaths⟩ := exists_outputPaths_of_ok h
  rw [(run_declarationPaths _ c _ hpaths).1] at h
  rw [(run_declarationPaths _ c _ hpaths).2]
  have hwrite : (writeFiles [(paths.snapshot, d.snapshot)] : Action (StateM Tree) _) =
      writeFile paths.snapshot d.snapshot >>= fun _ => pure (.ofWritten [paths.snapshot]) := by
    simp only [writeFiles, List.forM, bind_assoc, pure_bind, List.map_cons, List.map_nil]
  rw [hwrite] at h ⊢
  obtain ⟨_, ha, hreport, hworld⟩ := run_bind_ok h
  cases hreport
  refine ⟨paths, hpaths, rfl, fun hs => ?_⟩
  rw [hworld, worldAfter_run_pure]
  exact textAt_writeFile hs ha

/-! ### The last phases of a run -/

theorem generate_eq [Parser] {config : Configuration} {dry : Bool} {p : Pipeline (StateM Tree)}
    (h : (Registry.builtIn (StateM Tree)).pipeline config dry = .ok p) (t : Tree) :
    answer (generate config dry : StateM Tree _) t = (exec phases p t).outcome ∧
      worldAfter (generate config dry : StateM Tree _) t = (exec phases p t).world := by
  unfold generate
  rw [h]
  exact ⟨rfl, rfl⟩

/-- A run at its second checkpoint. -/
def gate (p : Pipeline (StateM Tree)) (t : Tree) : Result Tree Unit := exec untilSecondCheckpoint p t

theorem ids_gate (p : Pipeline (StateM Tree)) (t : Tree) :
    (gate p t).pipeline.plugins.map (·.plugin.id) = p.plugins.map (·.plugin.id) := by
  have hplugins := congrArg (List.map Plugin.id) (follows_untilSecondCheckpoint p t).plugins
  rwa [List.map_map, List.map_map] at hplugins

/-- A run after modules were brought up to date. -/
def transformed (p : Pipeline (StateM Tree)) (t : Tree) : Result Tree Unit :=
  exec (before .finalized) p t

theorem transformed_eq {p : Pipeline (StateM Tree)} {t : Tree}
    (h : Clean untilSecondCheckpoint p t) :
    transformed p t = exec transform (gate p t).pipeline (gate p t).world := by
  rw [transformed, gate, before, exec_bind, Result.next, h.1]
  simp only [exec_bind, exec_checkpoint, h.2, if_true, next_ok]

theorem apply_context_of_silent (p : Pipeline (StateM Tree)) {r : Report} (hd : r.documents = [])
    (hp : r.problems = []) : (p.apply r).context = p.context := by
  rw [apply, hd, hp]
  show p.context.addProblems [] = p.context
  rw [Context.addProblems, List.append_nil]

/-- A transformation by the generator's own plugin. -/
theorem exec_transform_updates [Parser] {q : Pipeline (StateM Tree)} {t : Tree}
    {l : LoadedPlugin (StateM Tree)} (hl : q.participants .transform = [l])
    (hphases : l.phases.transform = updateModules) (hs : t.Sound) {paths : OutputPaths}
    (hpaths : q.context.settings.outputPaths? (inputIsFile q.context t) = some paths)
    (hsettled : ∀ u ∈ due q.context t, (t.trail true u.module).settled = true)
    (hapart : (due q.context t).Pairwise fun u v => Apart t u.module v.module) :
    ∃ rs, List.Forall₂ (Fate t (exec transform q t).world) (due q.context t) rs ∧
      (exec transform q t).outcome = .ok () ∧
      (exec transform q t).pipeline = q.apply (tallied .empty (due q.context t) rs) ∧
      (exec transform q t).world.Sound := by
  obtain ⟨ha, hw⟩ := updateModules_eq hpaths
  obtain ⟨rs, hfates, hreport, hsound, -⟩ := foldlM_addUpdate_fates hs hsettled hapart .empty
  rw [exec_transform_singleton hl, exec_transformBy, hphases, ha, hw, hreport]
  exact ⟨rs, hfates, rfl, rfl, hsound⟩

/-- What is done behind the gate, if one plugin brings modules up to date and one writes the
schema. -/
theorem conclusion_independent [Parser] {q : Pipeline (StateM Tree)} {t : Tree} (h : Underway q t)
    {l l' : LoadedPlugin (StateM Tree)} (hl : q.participants .transform = [l])
    (hphases : l.phases.transform = updateModules) (hl' : q.participants .finalized = [l'])
    (hphases' : l'.phases.finalized = writeSnapshot) {d : Schema.Document}
    (hd : q.context.document = some d)
    (hsettled : ∀ u ∈ due q.context t, (t.trail true u.module).settled = true)
    (hapart : (due q.context t).Pairwise fun u v => Apart t u.module v.module) {r : Report}
    (hr : answer (writeSnapshot q.context : Action _ _).run (exec transform q t).world = .ok r) :
    ∃ rs output,
      List.Forall₂ (Fate t (exec transform q t).world) (due q.context t) rs ∧
      (exec conclusion q t).pipeline.summary.mergedModules = changed (due q.context t) rs ∧
      q.context.settings.typesOutput = some output ∧
      textAt (exec conclusion q t).world (output.join ⟨"schema.graphql"⟩) = .ok (some d.snapshot) ∧
      (exec conclusion q t).outcome =
        if failures rs = [] then .ok (exec conclusion q t).pipeline.summary
        else .error (.modules (failures rs)) := by
  -- That the snapshot is written at the end says that it is known where files go, also before.
  obtain ⟨paths, hpaths, hreport, htext⟩ := writeSnapshot_ok hd hr
  obtain ⟨_, output, -, houtput, hsnapshot⟩ := outputPaths?_eq_some hpaths
  obtain ⟨_, hpaths'⟩ := exists_outputPaths hpaths (inputIsFile q.context t)
  obtain ⟨rs, hfates, hok, hpipeline, hsound⟩ :=
    exec_transform_updates hl hphases h.sound hpaths' hsettled hapart
  -- The pipeline between the two phases, as far as the last phase and the end of the run see it.
  obtain ⟨q', hq', hcontext, hparticipants, hmodules, hmerged⟩ : ∃ q',
      (exec transform q t).pipeline = q' ∧ q'.context = q.context ∧
      q'.participants .finalized = [l'] ∧ q'.moduleProblems = failures rs ∧
      q'.summary.mergedModules = changed (due q.context t) rs := by
    refine ⟨_, hpipeline, apply_context_of_silent q rfl rfl, hl', ?_, ?_⟩
    · show q.moduleProblems ++ ([] ++ failures rs) = failures rs
      rw [h.modules]
      rfl
    · show q.summary.mergedModules ++ ([] ++ changed (due q.context t) rs) = _
      rw [h.merged]
      rfl
  have hx : exec conclusion q t = exec afterFinalized (q'.apply r)
      (worldAfter (writeSnapshot q.context : Action _ _).run (exec transform q t).world) := by
    rw [conclusion_eq_finalized, exec_bind, Result.next, hok]
    dsimp only
    rw [hq', exec_bind, exec_filePhase_singleton _ hparticipants, hphases', hcontext, hr]
    rfl
  have hmodules' : (q'.apply r).moduleProblems = failures rs := by
    show q'.moduleProblems ++ r.moduleProblems = _
    rw [hmodules, hreport]
    exact List.append_nil _
  have hmerged' : (q'.apply r).summary.mergedModules = changed (due q.context t) rs := by
    show q'.summary.mergedModules ++ r.mergedModules = _
    rw [hmerged, hreport]
    exact List.append_nil _
  replace htext := htext hsound
  rw [OutputPaths.snapshot, hsnapshot] at htext
  rw [hx, exec_afterFinalized, hmodules']
  by_cases hfailed : failures rs = []
  · rw [if_pos hfailed]
    exact ⟨rs, output, hfates, hmerged', houtput, htext, by rw [if_pos hfailed]⟩
  · rw [if_neg hfailed]
    exact ⟨rs, output, hfates, hmerged', houtput, htext, by rw [if_neg hfailed]⟩

/-- In a run that reaches its last phases, what becomes of each module is decided by what it held
before, the schema is written whatever becomes of the modules, and all those that failed are
reported. -/
theorem modules_independent [Parser] (config : Configuration) (p : Pipeline (StateM Tree))
    (t : Tree) (hload : (Registry.builtIn (StateM Tree)).pipeline config false = .ok p)
    (hnames : (config.plugins.map (·.1)).Nodup) (hresolvers : resolversId ∈ config.plugins.map (·.1))
    (ht : t.Sound) (hclean : Clean untilSecondCheckpoint p t)
    (us : List Update) (hus : us = due (gate p t).pipeline.context (gate p t).world)
    (hsettled : ∀ u ∈ us, ((gate p t).world.trail true u.module).settled = true)
    (hapart : us.Pairwise fun u v => Apart (gate p t).world u.module v.module)
    (hsnapshot : ∃ r, answer (writeSnapshot (gate p t).pipeline.context : Action _ _).run
      (transformed p t).world = .ok r) :
    ∃ rs d output,
      List.Forall₂ (Fate (gate p t).world (transformed p t).world) us rs ∧
      (exec phases p t).pipeline.summary.mergedModules = changed us rs ∧
      (gate p t).pipeline.context.document = some d ∧
      (gate p t).pipeline.context.settings.typesOutput = some output ∧
      textAt (worldAfter (generate config false : StateM Tree _) t) (output.join ⟨"schema.graphql"⟩) =
        .ok (some d.snapshot) ∧
      answer (generate config false : StateM Tree _) t =
        if failures rs = [] then .ok (exec phases p t).pipeline.summary
        else .error (.modules (failures rs)) := by
  obtain ⟨hunderway, hids, hcreate⟩ := underway_of_pipeline hload ht
  have hp := hunderway.appending
  have hgate : Underway (gate p t).pipeline (gate p t).world :=
    preliminary_untilSecondCheckpoint p t hunderway
  have hids' : (gate p t).pipeline.plugins.map (·.plugin.id) = config.plugins.map (·.1) :=
    (ids_gate p t).trans hids
  have hdry : (gate p t).pipeline.context.settings.dryRun = false :=
    (advancing_untilSecondCheckpoint p t hp).context.dryRun.trans (create_eq_ok hcreate).2.1
  have hphases : exec phases p t = exec conclusion (gate p t).pipeline (gate p t).world := by
    rw [exec_phases_of_opens ⟨hclean, hdry⟩, exec_bind, Result.next, hclean.1]
    rfl
  obtain ⟨d, hd⟩ := Option.isSome_iff_exists.1 (loaded_untilSecondCheckpoint hp hclean.1)
  obtain ⟨l, hl, hbuiltIn, hhas⟩ := hgate.participants_eq_singleton
    (fun _ h => h.has_transform) (hids' ▸ hnames) (hids' ▸ hresolvers)
  -- The plugin that brings modules up to date requires the one that writes the schema.
  have hdeclarations : declarationsId ∈ config.plugins.map (·.1) := by
    obtain ⟨l, hl, hbuiltIn, hhas⟩ := hunderway.participants_eq_singleton
      (fun _ h => h.has_transform) (hids ▸ hnames) (hids ▸ hresolvers)
    have hmem : l ∈ p.plugins :=
      List.mem_of_mem_filter (hl ▸ List.mem_singleton_self l : l ∈ p.participants .transform)
    exact hids ▸ mem_ids_of_create hcreate hmem (hbuiltIn.requires_declarations hhas)
  obtain ⟨l', hl', hbuiltIn', hhas'⟩ := hgate.participants_eq_singleton
    (fun _ h => h.has_finalized) (hids' ▸ hnames) (hids' ▸ hdeclarations)
  obtain ⟨r, hr⟩ := hsnapshot
  subst hus
  rw [transformed_eq hclean] at hr ⊢
  obtain ⟨rs, output, hfates, hmerged, houtput, htext, houtcome⟩ := conclusion_independent hgate hl
    (hbuiltIn.transform_eq hhas) hl' (hbuiltIn'.finalized_eq hhas') hd hsettled hapart hr
  obtain ⟨hanswer, hworld⟩ := generate_eq hload t
  rw [hanswer, hworld, hphases]
  exact ⟨rs, d, output, hfates, hmerged, hd, houtput, htext, houtcome⟩

theorem exists_eq_ok {ε α : Type} {x : Except ε α} (h : x.toOption.isSome = true) :
    ∃ a, x = .ok a := by
  cases x with
  | error e => cases h
  | ok a => exact ⟨a, rfl⟩

/-- A tree with a schema and the module for it, in which there is no object to merge. -/
def unmergeableTree : Tree :=
  ⟨["p"], [(["p"], .directory), (["p", "r"], .directory),
    (["p", "r", "Query.ts"], .file (Text.Utf8.encode "export const resolvers = 1;".toList)),
    (["p", "Query.graphql"],
      .file (Text.Utf8.encode "type Query \x7b a: Int @resolve \x7d".toList))]⟩

def unmergeableConfig : Configuration :=
  ⟨⟨""⟩, [(schemaId, .table [("input_path", .string "Query.graphql")]),
    (declarationsId, .table [("output_path", .string "t")]),
    (resolversId, .table [("output_path", .string "r")])]⟩

/-- The pipeline that the configuration is loaded to. -/
def unmergeablePipeline : Pipeline (StateM Tree) where
  baseDir := ⟨""⟩
  context := .ofSettings .empty
  plugins :=
    [⟨schemaPlugin _, .table [("input_path", .string "Query.graphql")], schemaPhases none⟩,
      ⟨declarationsPlugin _, .table [("output_path", .string "t")], declarationPhases none⟩,
      ⟨resolversPlugin _, .table [("output_path", .string "r")], resolverPhases none⟩]
  moduleProblems := []
  summary := ⟨[], []⟩

/-- A run whose only module cannot be merged. -/
theorem unmergeable_modules_independent :
    Clean untilSecondCheckpoint unmergeablePipeline unmergeableTree ∧
    ∃ us rs d output,
      us = due (gate unmergeablePipeline unmergeableTree).pipeline.context
        (gate unmergeablePipeline unmergeableTree).world ∧
      us.map (·.module) = [⟨"r/Query.ts"⟩] ∧
      List.Forall₂ (Fate (gate unmergeablePipeline unmergeableTree).world
        (transformed unmergeablePipeline unmergeableTree).world) us rs ∧
      (exec phases unmergeablePipeline unmergeableTree).pipeline.summary.mergedModules =
        changed us rs ∧
      (gate unmergeablePipeline unmergeableTree).pipeline.context.document = some d ∧
      (gate unmergeablePipeline unmergeableTree).pipeline.context.settings.typesOutput =
        some output ∧
      textAt (worldAfter (generate unmergeableConfig false : StateM Tree _) unmergeableTree)
        (output.join ⟨"schema.graphql"⟩) = .ok (some d.snapshot) ∧
      answer (generate unmergeableConfig false : StateM Tree _) unmergeableTree =
        if failures rs = [] then .ok (exec phases unmergeablePipeline unmergeableTree).pipeline.summary
        else .error (.modules (failures rs)) := by
  have hload : (Registry.builtIn (StateM Tree)).pipeline unmergeableConfig false =
      .ok unmergeablePipeline := rfl
  have hsound : unmergeableTree.Sound := sound_of_entries rfl (by decide +kernel)
  have hrun :
      let r := gate unmergeablePipeline unmergeableTree
      let us := due r.pipeline.context r.world
      r.outcome = .ok () ∧ r.pipeline.context.problems.isEmpty = true ∧
        us.map (·.module) = [⟨"r/Query.ts"⟩] ∧
        us.all (fun u => (r.world.trail true u.module).settled) = true ∧
        (answer (writeSnapshot r.pipeline.context : Action (StateM Tree) Report).run
          (transformed unmergeablePipeline unmergeableTree).world).toOption.isSome = true := by
    decide +kernel
  obtain ⟨hok, hproblems, hmodules, hsettled, hsnapshot⟩ := hrun
  have hclean : Clean untilSecondCheckpoint unmergeablePipeline unmergeableTree :=
    ⟨hok, List.isEmpty_iff.1 hproblems⟩
  obtain ⟨u, hu, -⟩ := List.map_eq_singleton_iff.1 hmodules
  obtain ⟨rs, d, output, h⟩ := modules_independent unmergeableConfig unmergeablePipeline
    unmergeableTree hload (by decide) (by decide) hsound hclean _ rfl (List.all_eq_true.1 hsettled)
    (hu ▸ List.pairwise_singleton _ u) (exists_eq_ok hsnapshot)
  exact ⟨hclean, _, rs, d, output, rfl, hmodules, h⟩

end TypeLoom.Plugins
