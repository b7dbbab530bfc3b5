import TypeLoom.Proofs.Merge.Fresh
import TypeLoom.Proofs.Plugins.Standing
import TypeLoom.Proofs.Plugins.Steps
import TypeLoom.Proofs.Schema.Loaded
import TypeLoom.Proofs.Schema.Comparison

/-!
# Runs that are repeated

Main statement: a run of the generator's own plugins that succeeded is done again in the tree that it
left, without a module being merged or any file being changed, if that tree still holds the schema of
the run, what the run wrote is not written twice, and merging a module once more would not change it.
It holds the schema if the run wrote none of the files that are found for it there, as when everything
was written outside of the input: `schema_stands`.
-/

namespace TypeLoom.Plugins

open Files Files.Tree Pipeline Collected Generation
open ResolverModule (Parser Update merge merge_freshModule draft freshModule freshStubs
  freshStubs_of_unique)

/-! ### The phases before the gate -/

theorem context_of_create {baseDir : Path} {dry : Bool} {plugins : List (LoadedPlugin (StateM Tree))}
    {p : Pipeline (StateM Tree)} (h : create baseDir dry plugins = .ok p) :
    p.context = .ofSettings { Settings.empty with dryRun := dry } := by
  unfold create at h
  split at h
  · cases h
  · cases h
    rfl

theorem baseDir_of_create {baseDir : Path} {dry : Bool} {plugins : List (LoadedPlugin (StateM Tree))}
    {p : Pipeline (StateM Tree)} (h : create baseDir dry plugins = .ok p) : p.baseDir = baseDir := by
  unfold create at h
  split at h
  · cases h
  · cases h
    rfl

section

variable {T t v : Tree} {p q : Pipeline (StateM Tree)} {d : Schema.Document}

theorem length_documents_gather [Parser] {ls : List (LoadedPlugin (StateM Tree))}
    (hls : ∀ l ∈ ls, BuiltIn l) {c : Context} {rs : List Report}
    (h : (gather (fun l => l.phases.initial c) ls t).1 = .ok rs) :
    (rs.flatMap (·.documents)).length ≤ (ls.map (·.plugin.id)).count schemaId := by
  induction ls generalizing t rs with
  | nil =>
    cases h
    exact le_refl 0
  | cons l ls ih =>
    obtain ⟨hl, hrest⟩ := List.forall_mem_cons.mp hls
    obtain ⟨r, rest, rfl, ha, hrs, -⟩ := gather_ok h
    have hfirst := hl.length_documents_initial ha
    have hothers := ih hrest hrs
    rw [List.flatMap_cons, List.length_append, List.map_cons, ← List.singleton_append,
      List.count_append]
    exact Nat.add_le_add hfirst hothers

/-- Plugins of different names load one document, so it is the one that the context has then. -/
theorem loads_of_gather [Parser] {ls : List (LoadedPlugin (StateM Tree))}
    (hls : ∀ l ∈ ls, BuiltIn l)
    (hids : (ls.map (·.plugin.id)).Nodup) {c : Context} {rs : List Report}
    (h : (gather (fun l => l.phases.initial c) ls t).1 = .ok rs) (hnone : p.context.document = none)
    (hsome : (rs.foldl apply p).context.document = some d) : ∀ r ∈ rs, Loads d r := by
  have hlength : (rs.flatMap (·.documents)).length ≤ 1 :=
    (length_documents_gather hls h).trans (List.nodup_iff_count_le_one.mp hids schemaId)
  rw [document_foldl_apply] at hsome
  intro r hr e he
  have hmem : e ∈ rs.flatMap (·.documents) := List.mem_flatMap_of_mem hr he
  rcases hdocuments : rs.flatMap (·.documents) with _ | ⟨e', _ | ⟨_, _⟩⟩
  · rw [hdocuments] at hmem
    cases hmem
  · rw [hdocuments] at hmem hsome
    obtain rfl := List.mem_singleton.mp hmem
    rw [List.foldl_cons, List.foldl_nil, Context.addDocument, hnone] at hsome
    exact Option.some.inj hsome
  · rw [hdocuments] at hlength
    exact absurd hlength (by simp)

theorem BuiltIn.has_initial [Parser] {l : LoadedPlugin (StateM Tree)} (h : BuiltIn l)
    (hid : l.plugin.id = schemaId) : l.has .initial = true := by
  cases h with
  | schema value source => rfl
  | declarations value output => rfl
  | resolvers value output => rfl
  | requestContext value => exact absurd hid (by decide : requestContextId ≠ schemaId)

theorem nodup_participants (hids : (p.plugins.map (·.plugin.id)).Nodup) (phase : Phase) :
    ((p.participants phase).map (·.plugin.id)).Nodup :=
  hids.sublist (List.filter_sublist.map _)

/-- Where a schema was loaded in the first phase that works on files, with what was written before and
after. -/
theorem load_of_initial [Parser] (h : Underway p t) (hids : (p.plugins.map (·.plugin.id)).Nodup)
    (hnone : p.context.document = none)
    (hok : exec (filePhase .initial (·.initial)) p t = ⟨.ok (), q, v⟩)
    (hd : q.context.document = some d) {l : LoadedPlugin (StateM Tree)} (hl : l ∈ p.plugins)
    (hid : l.plugin.id = schemaId) {s : SchemaSource} (hphases : l.phases = schemaPhases (some s)) :
    ∃ t' files, answer (s.load : Action (StateM Tree) _).run t' = .ok d ∧
      q.summary.writtenFiles = p.summary.writtenFiles ++ files ∧
      ∀ T, Later v T → Writes T files t t' ∧ Writes T files t' v := by
  have hbuiltIn : ∀ l ∈ p.participants .initial, BuiltIn l :=
    fun l hl => h.builtIn l (List.mem_of_mem_filter hl)
  have hparticipates : l ∈ p.participants .initial :=
    List.mem_filter.mpr ⟨hl, (h.builtIn l hl).has_initial hid⟩
  obtain ⟨rs, hrs, rfl, rfl⟩ := gather_of_filePhase hok
  obtain ⟨t', r, hr, ha, hwrites⟩ := answer_of_gather
    (fun l hl => (hbuiltIn l hl).restrained_initial p.context) h.sound hrs hparticipates
  rw [hphases] at ha
  obtain ⟨s', e, hs', hload, rfl⟩ := loadReport_ok ha
  obtain rfl := Option.some.inj hs'
  obtain rfl : e = d := loads_of_gather hbuiltIn (nodup_participants hids .initial) hrs hnone hd _ hr e
    (List.mem_singleton_self e)
  exact ⟨t', _, hload,
    foldl_apply_eq (·.summary.writtenFiles) (·.writtenFiles) (fun _ _ => rfl) rs p, hwrites⟩

/-- The first phase that works on files is done again if the schema is loaded again, and after it
the input stands. -/
theorem redone_initial [Parser] (h : Underway p t) (hids : (p.plugins.map (·.plugin.id)).Nodup)
    (hnone : p.context.document = none) {baseDir : Path}
    (hconfigured : Configured baseDir none p.plugins p.context)
    (hload : ∀ l ∈ p.plugins, l.plugin.id = schemaId → ∃ s, l.phases = schemaPhases (some s) ∧
      answer (s.load : Action (StateM Tree) _).run T = .ok d)
    (hok : exec (filePhase .initial (·.initial)) p t = ⟨.ok (), q, v⟩)
    (hd : q.context.document = some d) :
    ∃ files, Redone T (· = T) (· = T) files (filePhase .initial (·.initial)) p t q v ∧
      q.summary.writtenFiles = p.summary.writtenFiles ++ files ∧ InputStands q.context v := by
  have hbuiltIn : ∀ l ∈ p.participants .initial, BuiltIn l :=
    fun l hl => h.builtIn l (List.mem_of_mem_filter hl)
  have hwrites : ∀ l ∈ p.participants .initial, Restrained (l.phases.initial p.context) :=
    fun l hl => (hbuiltIn l hl).restrained_initial p.context
  obtain ⟨rs, hrs, hv, hq⟩ := gather_of_filePhase hok
  obtain ⟨files, hredone, hwritten, hsettings, -⟩ := redone_filePhase h.sound hok
    (fun l hl => (hbuiltIn l hl).mild_initial p.context) hwrites
    (fun l hl => (hbuiltIn l hl).repeats_initial p.context
      (hload l (List.mem_of_mem_filter hl)))
    (fun rs' hrs' => by
      obtain rfl : rs = rs' := Except.ok.inj (hrs.symm.trans hrs')
      exact loads_of_gather hbuiltIn (nodup_participants hids .initial) hrs hnone (hq ▸ hd))
  refine ⟨files, hredone, hwritten, fun path hpath => ?_⟩
  rw [hsettings] at hpath
  obtain ⟨l, hl, hid, s, -, hphases, rfl⟩ := (hconfigured.input path hpath).resolve_left nofun
  obtain ⟨t', _, hload', -, hstretch⟩ := load_of_initial h hids hnone hok hd hl hid hphases
  have hlater := (hstretch v (.refl v)).2.later
  exact (kind_of_load hload').imp hlater.kind_file hlater.kind_directory

theorem document_of_collected [Parser] (h : Underway p t)
    (hok : exec (filePhase .collected (·.collected)) p t = ⟨.ok (), q, v⟩) :
    q.context.document = p.context.document := by
  obtain ⟨rs, hrs, -, rfl⟩ := gather_of_filePhase hok
  have hdocuments : rs.flatMap (·.documents) = [] := by
    refine List.flatMap_eq_nil_iff.mpr fun r hr => ?_
    obtain ⟨l, hl, t', ha⟩ := exists_of_mem_gather hrs hr
    exact (h.builtIn l (List.mem_of_mem_filter hl)).undocumented_collected p.context t' r ha
  rw [document_foldl_apply, hdocuments, List.foldl_nil]

/-- A run up to its first checkpoint is done again if the schema is loaded again. -/
theorem redone_untilFirstCheckpoint [Parser] (h : Underway p t)
    (hids : (p.plugins.map (·.plugin.id)).Nodup) (hnone : p.context.document = none)
    (hinput : p.context.settings.schemaInput = none)
    (hok : exec untilFirstCheckpoint p t = ⟨.ok (), q, v⟩)
    (hschema : (schemaIn p T).toOption = q.context.document) :
    ∃ files, Redone T (· = T) (· = T) files untilFirstCheckpoint p t q v ∧
      q.summary.writtenFiles = p.summary.writtenFiles ++ files ∧ InputStands q.context v := by
  -- The steps, each in the pipeline and the tree that the one before it left.
  obtain ⟨p₁, t₁, hconfigure, hrest⟩ := exec_bind_ok hok
  obtain ⟨p₂, t₂, hinitial, hcollect⟩ := exec_bind_ok hrest
  have h₁ := preliminary_configure.underway h hconfigure
  have h₂ := (preliminary_filePhase fun _ hl c => hl.mild_initial c).underway h₁ hinitial
  obtain ⟨rfl, hredone₁, hentries, hdocument, hsummary, hconfigured⟩ :=
    redone_configure (T := T) (S := (· = T)) h hconfigure
  obtain ⟨rfl, hredone₃, hretains, hsummary', d, hd⟩ :=
    redone_collectAndValidate (T := T) (S := (· = T)) h₂ hcollect
  rw [hretains.document, hd] at hschema
  have hload : schemaIn p T = .ok d := eq_ok_of_toOption hschema
  rw [← keys_entries] at hids
  rw [hinput] at hconfigured
  obtain ⟨files, hredone₂, hwritten, hstands⟩ := redone_initial h₁
    (by rwa [← keys_entries, hentries]) (hdocument.trans hnone) hconfigured
    (fun l hl hid => load_of_schemaIn hload hconfigured hentries hids hl hid) hinitial hd
  refine ⟨[] ++ (files ++ []), hredone₁.bind (hredone₂.bind hredone₃), ?_, ?_⟩
  · rw [hsummary', hwritten, hsummary, List.append_nil, List.nil_append]
  · unfold InputStands
    rwa [hretains.settings]

/-- A run up to its second checkpoint is done again if the schema is loaded again. -/
theorem redone_untilSecondCheckpoint [Parser] (h : Underway p t)
    (hids : (p.plugins.map (·.plugin.id)).Nodup) (hnone : p.context.document = none)
    (hinput : p.context.settings.schemaInput = none)
    (hok : exec untilSecondCheckpoint p t = ⟨.ok (), q, v⟩)
    (hschema : (schemaIn p T).toOption = q.context.document) :
    ∃ files, Redone T (· = T) (Same T) files untilSecondCheckpoint p t q v ∧
      q.summary.writtenFiles = p.summary.writtenFiles ++ files ∧ InputStands q.context v := by
  obtain ⟨p₁, t₁, hfirst, hrest⟩ := exec_bind_ok hok
  obtain ⟨p₂, t₂, hcheckpoint, hcollected⟩ := exec_bind_ok hrest
  have h₁ := preliminary_untilFirstCheckpoint.underway h hfirst
  obtain ⟨hproblems, rfl, rfl⟩ := exec_checkpoint_ok hcheckpoint
  rw [document_of_collected h₁ hcollected] at hschema
  obtain ⟨files, hredone₁, hwritten, hstands⟩ :=
    redone_untilFirstCheckpoint h hids hnone hinput hfirst hschema
  have hbuiltIn : ∀ l ∈ p₂.participants .collected, BuiltIn l :=
    fun l hl => h₁.builtIn l (List.mem_of_mem_filter hl)
  obtain ⟨more, hredone₃, hwritten', hsettings, hwrites⟩ := redone_filePhase (T := T)
    (P := fun _ => True) h₁.sound hcollected (fun l hl => (hbuiltIn l hl).mild_collected _)
    (fun l hl => (hbuiltIn l hl).restrained_collected _)
    (fun l hl => (hbuiltIn l hl).repeats_collected hstands) (fun _ _ _ _ => trivial)
  have hsame : ∀ T₁, T₁ = T → Same T T₁ := fun T₁ hT₁ => hT₁ ▸ .refl T
  refine ⟨files ++ ([] ++ more), hredone₁.bind
    ((redone_checkpoint h₁.sound hproblems).bind (hredone₃.strengthen hsame)), ?_, ?_⟩
  · rw [hwritten', hwritten, List.append_assoc, List.nil_append]
  · unfold InputStands
    rw [hsettings]
    exact hstands.later hwrites.later

/-- Where a run that came to its second checkpoint loaded its schema, with what was written before and
after. -/
theorem load_of_gate [Parser] (h : Underway p t) (hids : (p.plugins.map (·.plugin.id)).Nodup)
    (hnone : p.context.document = none) (hok : exec untilSecondCheckpoint p t = ⟨.ok (), q, v⟩)
    {value : Toml.Value} (hvalue : (entries p.plugins).lookup schemaId = some value)
    {s : SchemaSource} (hs : schemaSource ⟨schemaId, p.baseDir, value⟩ = .ok s) :
    ∃ t' d files, answer (s.load : Action (StateM Tree) _).run t' = .ok d ∧
      q.context.document = some d ∧ q.summary.writtenFiles = p.summary.writtenFiles ++ files ∧
      ∀ T, Later v T → Writes T files t t' ∧ Writes T files t' v := by
  -- The steps, each in the pipeline and the tree that the one before it left.
  obtain ⟨p₄, t₄, hfirst, hrest⟩ := exec_bind_ok hok
  obtain ⟨p₅, t₅, hcheckpoint, hcollected⟩ := exec_bind_ok hrest
  obtain ⟨-, rfl, rfl⟩ := exec_checkpoint_ok hcheckpoint
  have h₅ := preliminary_untilFirstCheckpoint.underway h hfirst
  obtain ⟨p₁, t₁, hconfigure, hrest⟩ := exec_bind_ok hfirst
  obtain ⟨p₂, t₂, hinitial, hcollect⟩ := exec_bind_ok hrest
  have h₁ := preliminary_configure.underway h hconfigure
  have h₂ := (preliminary_filePhase fun _ hl c => hl.mild_initial c).underway h₁ hinitial
  obtain ⟨rfl, -, hentries, hdocument, hsummary, hconfigured⟩ :=
    redone_configure (T := v) (S := (· = v)) h hconfigure
  obtain ⟨rfl, -, hretains, hsummary', d, hd⟩ :=
    redone_collectAndValidate (T := v) (S := (· = v)) h₂ hcollect
  obtain ⟨l, hl, hid, hphases⟩ := exists_source hconfigured hentries hvalue hs
  obtain ⟨t', files, hload, hwritten, hinitially⟩ := load_of_initial h₁
    (by rwa [← keys_entries, hentries, keys_entries]) (hdocument.trans hnone) hinitial hd hl hid
    hphases
  obtain ⟨more, hwritten', hafterwards⟩ := writes_filePhase h₅.sound
    (fun l hl => (h₅.builtIn l (List.mem_of_mem_filter hl)).restrained_collected _) hcollected
  refine ⟨t', d, files ++ more, hload, ?_, ?_, fun T hT => ?_⟩
  · rw [document_of_collected h₅ hcollected, hretains.document, hd]
  · rw [hwritten', hsummary', hwritten, hsummary, List.append_assoc]
  · have hlast := hafterwards T hT
    obtain ⟨hbefore, hloaded⟩ := hinitially T (hlast.later.trans hT)
    exact ⟨hbefore.mono fun q hq => List.mem_append_left _ hq, hloaded.trans hlast⟩

end

/-! ### The phases behind the gate -/

section

variable {T t v : Tree} {p q : Pipeline (StateM Tree)}

theorem apply_empty (p : Pipeline (StateM Tree)) : p.apply .empty = p := by
  have hcontext : p.context.addProblems [] = p.context := by
    rw [Context.addProblems, List.append_nil]
  rw [apply]
  simp only [Report.empty, List.foldl_nil, List.append_nil, hcontext]

/-- At most one plugin takes part in the phase in which modules are brought up to date. -/
theorem transform_cases [Parser] (h : Underway p t) (hids : (p.plugins.map (·.plugin.id)).Nodup) :
    p.participants .transform = [] ∨
      ∃ l, p.participants .transform = [l] ∧ l.phases.transform = updateModules := by
  by_cases hmem : resolversId ∈ p.plugins.map (·.plugin.id)
  · obtain ⟨l, hl, hbuiltIn, hhas⟩ :=
      h.participants_eq_singleton (fun _ h => h.has_transform) hids hmem
    exact .inr ⟨l, hl, hbuiltIn.transform_eq hhas⟩
  · refine .inl (List.filter_eq_nil_iff.mpr fun l hl hhas => ?_)
    rw [(h.builtIn l hl).has_transform, beq_iff_eq] at hhas
    exact hmem (hhas ▸ List.mem_map_of_mem hl)

theorem unmerged_apply_tallied {us : List Update} {rs : List (Except ModuleProblem Bool)}
    (h : failures rs = []) : unmerged (p.apply (tallied .empty us rs)) = unmerged p := by
  have hmodules : p.moduleProblems ++ (tallied .empty us rs).moduleProblems = p.moduleProblems := by
    show p.moduleProblems ++ ([] ++ failures rs) = _
    rw [h, List.append_nil, List.append_nil]
  have hcontext : (p.apply (tallied .empty us rs)).context = p.context :=
    apply_context_of_silent p rfl rfl
  have hwritten : p.summary.writtenFiles ++ (tallied .empty us rs).writtenFiles =
      p.summary.writtenFiles := List.append_nil _
  unfold unmerged
  rw [hcontext]
  show (⟨p.baseDir, p.context, p.plugins, p.moduleProblems ++ _, ⟨[], _ ++ _⟩⟩ :
    Pipeline (StateM Tree)) = _
  rw [hmodules, hwritten]

/-- What bringing modules up to date leaves as it was. -/
structure Spares (p q : Pipeline (StateM Tree)) : Prop where
  context : q.context = p.context
  plugins : q.plugins = p.plugins
  written : q.summary.writtenFiles = p.summary.writtenFiles

/-- What a plugin that brought modules up to date reported. -/
theorem updates_ok [Parser] {l : LoadedPlugin (StateM Tree)} (hl : p.participants .transform = [l])
    (hphases : l.phases.transform = updateModules) (hok : exec transform p t = ⟨.ok (), q, v⟩) :
    ∃ paths rs, p.context.settings.outputPaths? (inputIsFile p.context t) = some paths ∧
      answer ((due p.context t).foldlM addUpdate .empty : StateM Tree _) t =
        tallied .empty (due p.context t) rs ∧
      q = p.apply (tallied .empty (due p.context t) rs) ∧
      v = worldAfter ((due p.context t).foldlM addUpdate .empty : StateM Tree _) t := by
  rw [exec_transform_singleton hl, exec_transformBy, hphases] at hok
  cases ha : answer (updateModules p.context : Action (StateM Tree) _).run t with
  | error e =>
    rw [ha] at hok
    cases hok
  | ok report =>
    obtain ⟨paths, hpaths⟩ := exists_outputPaths_of_ok ha
    obtain ⟨hanswer, hworld⟩ := updateModules_eq hpaths
    obtain ⟨rs, hrs⟩ := exists_tallied (due p.context t) .empty t
    have hreport : report = tallied .empty (due p.context t) rs :=
      (Except.ok.inj (ha.symm.trans hanswer)).trans hrs
    rw [ha, hworld, hreport] at hok
    cases hok
    exact ⟨paths, rs, hpaths, hrs, rfl, rfl⟩

/-- Without a plugin that brings modules up to date nothing happens in its phase. -/
theorem exec_transform_idle (hnone : p.participants .transform = []) (t : Tree) :
    exec transform p t = ⟨.ok (), p, t⟩ := by
  rw [exec_transform, hnone]
  rfl

/-- Bringing modules up to date writes no others. -/
theorem writes_transform [Parser] (h : Underway p t) (hids : (p.plugins.map (·.plugin.id)).Nodup)
    (hok : exec transform p t = ⟨.ok (), q, v⟩) :
    Spares p q ∧ ∀ T, Later v T → Writes T ((due p.context t).map (·.module)) t v := by
  rcases transform_cases h hids with hnone | ⟨l, hl, hphases⟩
  · rw [exec_transform_idle hnone] at hok
    cases hok
    exact ⟨⟨rfl, rfl, rfl⟩, fun T _ => .refl h.sound T _⟩
  · obtain ⟨paths, rs, -, -, rfl, rfl⟩ := updates_ok hl hphases hok
    exact ⟨⟨apply_context_of_silent p rfl rfl, rfl, List.append_nil _⟩,
      fun T => writes_foldlM_addUpdate _ h.sound .empty⟩

/-- A plugin that brought all modules up to date finds them to be so, unless merging once more would
change them. -/
theorem redone_updates [Parser] (h : Underway p t) (hids : (p.plugins.map (·.plugin.id)).Nodup)
    (hinput : InputStands p.context t) {l : LoadedPlugin (StateM Tree)}
    (hl : p.participants .transform = [l]) (hphases : l.phases.transform = updateModules)
    (hok : exec transform p t = ⟨.ok (), q, v⟩) (hmodules : q.moduleProblems = [])
    (hstable : ∀ u ∈ due p.context t, Stable T u) :
    Redone T (Same T) (Same T) ((due p.context t).map (·.module)) transform p t q v := by
  have hwrites := (writes_transform h hids hok).2
  obtain ⟨paths, rs, hpaths, hrs, rfl, rfl⟩ := updates_ok hl hphases hok
  have hfailures : failures rs = [] := (List.append_eq_nil_iff.mp hmodules).2
  refine ⟨hok, hwrites T, fun rest hrest hnodup T₁ hT₁ => ?_⟩
  have hupdated := updated_of_foldlM_addUpdate h.sound .empty (by rw [hrs]; exact hfailures) hrest
    hnodup
  have hlater : Later t T₁ := ((hwrites T hrest.later).later.trans hrest.later).trans hT₁.later
  have hdue : due p.context T₁ = due p.context t := by
    rw [due, due, hinput.inputIsFile_eq hlater]
  obtain ⟨hagain, hstays⟩ := foldlM_addUpdate_again
    (fun u hu => (hupdated u hu).found (hstable u hu) hT₁) .empty
  rw [← hdue] at hagain hstays
  rw [← hinput.inputIsFile_eq hlater] at hpaths
  obtain ⟨hanswer₁, hworld₁⟩ := updateModules_eq hpaths
  rw [hagain] at hanswer₁
  rw [hstays] at hworld₁
  have hl₁ : participants (unmerged p) .transform = [l] := hl
  have hcontext₁ : (unmerged p).context = p.context := rfl
  refine ⟨T₁, ?_, hT₁⟩
  rw [exec_transform_singleton hl₁, exec_transformBy, hphases, hcontext₁, hanswer₁, hworld₁,
    unmerged_apply_tallied hfailures]
  dsimp only
  rw [apply_empty]

theorem redone_transform [Parser] (h : Underway p t) (hids : (p.plugins.map (·.plugin.id)).Nodup)
    (hinput : InputStands p.context t) (hok : exec transform p t = ⟨.ok (), q, v⟩)
    (hmodules : q.moduleProblems = [])
    (hstable : ∀ u ∈ due p.context t, Stable T u) :
    Redone T (Same T) (Same T) ((due p.context t).map (·.module)) transform p t q v := by
  rcases transform_cases h hids with hnone | ⟨l, hl, hphases⟩
  · have hexec := hok
    rw [exec_transform_idle hnone] at hexec
    cases hexec
    exact (redone_of_still h.sound hok fun T₁ =>
      exec_transform_idle (p := unmerged p) hnone T₁).weaken _
  · exact redone_updates h hids hinput hl hphases hok hmodules hstable

/-- What a run writes behind the gate. -/
theorem writes_afterCheckpoints [Parser] (h : Underway p t)
    (hids : (p.plugins.map (·.plugin.id)).Nodup)
    (hok : exec afterCheckpoints p t = ⟨.ok (), q, v⟩) :
    ∃ files, q.summary.writtenFiles = p.summary.writtenFiles ++ files ∧
      ∀ T, Later v T → Writes T ((due p.context t).map (·.module) ++ files) t v := by
  obtain ⟨p₁, t₁, htransform, hrest⟩ := exec_bind_ok hok
  obtain ⟨p₂, t₂, hfinalized, hcheckpoint⟩ := exec_bind_ok hrest
  obtain ⟨-, rfl, rfl⟩ := exec_moduleCheckpoint_ok hcheckpoint
  obtain ⟨hspares, hmodules⟩ := writes_transform h hids htransform
  obtain ⟨files, hwritten, hfiles⟩ := writes_filePhase (hmodules t₁ (.refl t₁)).sound
    (fun l hl => (h.builtIn l (hspares.plugins ▸ List.mem_of_mem_filter hl)).restrained_finalized _)
    hfinalized
  refine ⟨files, by rw [hwritten, hspares.written], fun T hT => ?_⟩
  have hlast := hfiles T hT
  exact (hmodules T (hlast.later.trans hT)).trans hlast

/-- What a run does behind the gate is done again. -/
theorem redone_afterCheckpoints [Parser] (h : Underway p t)
    (hids : (p.plugins.map (·.plugin.id)).Nodup)
    (hinput : InputStands p.context t) (hok : exec afterCheckpoints p t = ⟨.ok (), q, v⟩)
    (hstable : ∀ u ∈ due p.context t, Stable T u) :
    ∃ files, Redone T (Same T) (Same T) ((due p.context t).map (·.module) ++ files)
        afterCheckpoints p t q v ∧
      q.summary.writtenFiles = p.summary.writtenFiles ++ files := by
  obtain ⟨p₁, t₁, htransform, hrest⟩ := exec_bind_ok hok
  obtain ⟨p₂, t₂, hfinalized, hcheckpoint⟩ := exec_bind_ok hrest
  obtain ⟨hproblems, rfl, rfl⟩ := exec_moduleCheckpoint_ok hcheckpoint
  -- Modules that fail are reported at the end only, so what is known at the end is known before.
  have hproblems₁ : p₁.moduleProblems = [] := by
    obtain ⟨rs, -, -, rfl⟩ := gather_of_filePhase hfinalized
    rw [foldl_apply_eq (·.moduleProblems) (·.moduleProblems) (fun _ _ => rfl)] at hproblems
    exact (List.append_eq_nil_iff.mp hproblems).1
  have hredone₁ := redone_transform h hids hinput htransform hproblems₁ hstable
  obtain ⟨hspares, hwrites⟩ := writes_transform h hids htransform
  have hmodules := hwrites t₁ (.refl t₁)
  have hbuiltIn : ∀ l ∈ p₁.participants .finalized, BuiltIn l :=
    fun l hl => h.builtIn l (hspares.plugins ▸ List.mem_of_mem_filter hl)
  have hinput₁ : InputStands p₁.context t₁ := hspares.context ▸ hinput.later hmodules.later
  obtain ⟨files, hredone₂, hwritten₂, -, hfiles⟩ := redone_filePhase (T := T)
    (P := fun _ => True) hmodules.sound hfinalized (fun l hl => (hbuiltIn l hl).mild_finalized _)
    (fun l hl => (hbuiltIn l hl).restrained_finalized _)
    (fun l hl => (hbuiltIn l hl).repeats_finalized hinput₁) (fun _ _ _ _ => trivial)
  refine ⟨files ++ [], hredone₁.bind (hredone₂.bind (redone_moduleCheckpoint hfiles.sound
    hproblems)), ?_⟩
  rw [hwritten₂, hspares.written, List.append_nil]

/-- A run that succeeded and was not dry. -/
theorem opens_of_ok (hp : p.Appending) (hdry : p.context.settings.dryRun = false) {s : Summary}
    (h : (exec phases p t).outcome = .ok s) : Opens p t := by
  by_contra hshut
  rw [exec_phases_of_not_opens hshut] at h
  obtain ⟨hok, hproblems, -⟩ := Result.shut_eq_ok h
  refine hshut ⟨⟨hok, hproblems⟩, ?_⟩
  rw [(advancing_untilSecondCheckpoint p t hp).context.dryRun, hdry]

/-- Behind an open gate a run goes on from where it came to it. -/
theorem exec_phases_of_gate (h : exec untilSecondCheckpoint p t = ⟨.ok (), q, v⟩)
    (hproblems : q.context.problems = []) (hdry : q.context.settings.dryRun = false) :
    exec phases p t = exec conclusion q v := by
  have hopens : Opens p t := by
    rw [Opens, Clean, h]
    exact ⟨⟨rfl, hproblems⟩, hdry⟩
  rw [exec_phases_of_opens hopens, exec_bind, h, next_ok]

theorem exec_conclusion (h : exec afterCheckpoints p t = ⟨.ok (), q, v⟩) :
    exec conclusion p t = ⟨.ok q.summary, q, v⟩ := by
  unfold conclusion
  rw [exec_bind, h, next_ok]
  rfl

theorem conclusion_ok {s : Summary} (h : (exec conclusion p t).outcome = .ok s) :
    ∃ q v, exec afterCheckpoints p t = ⟨.ok (), q, v⟩ ∧ s = q.summary := by
  unfold conclusion at h
  rw [exec_bind] at h
  rcases hx : exec afterCheckpoints p t with ⟨_ | _, q, v⟩
  · rw [hx] at h
    cases h
  · rw [hx] at h
    cases h
    exact ⟨q, v, rfl, rfl⟩

/-- A run that succeeded, from its second checkpoint to its end. -/
structure Completed [Parser] (p : Pipeline (StateM Tree)) (t : Tree) (r : Pipeline (StateM Tree))
    (T : Tree) : Prop where
  underway : Underway p t
  ids : (p.plugins.map (·.plugin.id)).Nodup
  document : p.context.document = none
  input : p.context.settings.schemaInput = none
  summary : p.summary = ⟨[], []⟩
  reaches : exec untilSecondCheckpoint p t = ⟨.ok (), (gate p t).pipeline, (gate p t).world⟩
  problems : (gate p t).pipeline.context.problems = []
  dryRun : (gate p t).pipeline.context.settings.dryRun = false
  after : exec afterCheckpoints (gate p t).pipeline (gate p t).world = ⟨.ok (), r, T⟩

theorem completed_of_ok [Parser] {config : Configuration} {p : Pipeline (StateM Tree)} {t T : Tree}
    {s : Summary} (hload : (Registry.builtIn (StateM Tree)).pipeline config false = .ok p)
    (hnames : (config.plugins.map (·.1)).Nodup) (ht : t.Sound)
    (hok : answer (generate config false : StateM Tree _) t = .ok s)
    (hT : T = worldAfter (generate config false : StateM Tree _) t) :
    ∃ r, Completed p t r T ∧ s = r.summary := by
  obtain ⟨hunderway, hids, hcreate⟩ := underway_of_pipeline hload ht
  obtain ⟨-, hdry, -, -, hsummary⟩ := create_eq_ok hcreate
  have hcontext := context_of_create hcreate
  rw [(generate_eq hload t).1] at hok
  rw [(generate_eq hload t).2] at hT
  have hopens := opens_of_ok hunderway.appending hdry hok
  have hgate : exec untilSecondCheckpoint p t =
      ⟨.ok (), (gate p t).pipeline, (gate p t).world⟩ := by
    rw [← hopens.1.1]
    rfl
  rw [exec_phases_of_gate hgate hopens.1.2 hopens.2] at hok hT
  obtain ⟨r, w, hafter, rfl⟩ := conclusion_ok hok
  rw [exec_conclusion hafter] at hT
  subst hT
  exact ⟨r, ⟨hunderway, hids ▸ hnames, by rw [hcontext]; rfl, by rw [hcontext]; rfl, hsummary, hgate,
    hopens.1.2, hopens.2, hafter⟩, rfl⟩

theorem Completed.underway_gate [Parser] {r : Pipeline (StateM Tree)} (h : Completed p t r T) :
    Underway (gate p t).pipeline (gate p t).world :=
  preliminary_untilSecondCheckpoint p t h.underway

theorem Completed.nodup_gate [Parser] {r : Pipeline (StateM Tree)} (h : Completed p t r T) :
    ((gate p t).pipeline.plugins.map (·.plugin.id)).Nodup := (ids_gate p t).symm ▸ h.ids

/-- The tree that a run left holds the schema of the run, if its source can still be searched for and
none of the files that are found was written by the run. -/
theorem schema_stands [Parser] {r : Pipeline (StateM Tree)} (h : Completed p t r T) (ht : t.Tidy)
    {value : Toml.Value} (hvalue : (entries p.plugins).lookup schemaId = some value)
    {source : SchemaSource} (hsource : schemaSource ⟨schemaId, p.baseDir, value⟩ = .ok source)
    {files : List Path} (hfiles : answer (source.files : Action (StateM Tree) _).run T = .ok files)
    (hclear : SchemaSource.Clear T (led T (r.summary.writtenFiles ++
      (due (gate p t).pipeline.context (gate p t).world).map (·.module))) files) :
    (schemaIn p T).toOption = (gate p t).pipeline.context.document := by
  obtain ⟨t', d, before, hload, hd, hwritten, hgate⟩ :=
    load_of_gate h.underway h.ids h.document h.reaches hvalue hsource
  obtain ⟨after, hwritten', hafter⟩ := writes_afterCheckpoints h.underway_gate h.nodup_gate h.after
  have hlast := hafter T (.refl T)
  obtain ⟨hfirst, hloaded⟩ := hgate T hlast.later
  have hwrites : Writes T (r.summary.writtenFiles ++
      (due (gate p t).pipeline.context (gate p t).world).map (·.module)) t' T := by
    refine (hloaded.trans hlast).mono fun q hq => ?_
    rw [hwritten', hwritten]
    simp only [List.mem_append] at hq ⊢
    tauto
  rw [schemaIn_eq hvalue hsource,
    SchemaSource.load_stands hfirst.sound (hfirst.tidy ht) hwrites hload hfiles hclear, hd]
  rfl

/-- A run that succeeded is done again in the tree that it left, and nothing changes there, if that
tree holds the schema of the run, the files and modules that it wrote lead to different places, and
what a module was merged to is not changed by merging it once more. -/
theorem generate_again [Parser] (config : Configuration) (p : Pipeline (StateM Tree)) (t T : Tree)
    (s : Summary) (hload : (Registry.builtIn (StateM Tree)).pipeline config false = .ok p)
    (hnames : (config.plugins.map (·.1)).Nodup) (ht : t.Sound)
    (hok : answer (generate config false : StateM Tree _) t = .ok s)
    (hT : T = worldAfter (generate config false : StateM Tree _) t)
    (us : List Update) (hus : us = due (gate p t).pipeline.context (gate p t).world)
    (hschema : (schemaIn p T).toOption = (gate p t).pipeline.context.document)
    (hapart : ((s.writtenFiles ++ us.map (·.module)).map T.canonical).Nodup)
    (hstable : ∀ u ∈ us, Stable T u) :
    answer (generate config false : StateM Tree _) T = .ok ⟨[], s.writtenFiles⟩ ∧
      Same T (worldAfter (generate config false : StateM Tree _) T) := by
  obtain ⟨r, h, rfl⟩ := completed_of_ok hload hnames ht hok hT
  have hq := h.underway_gate
  have hids := h.nodup_gate
  have hgate := h.reaches
  have hafter := h.after
  subst hus
  obtain ⟨files, hredone, hwritten, hstands⟩ :=
    redone_untilSecondCheckpoint h.underway h.ids h.document h.input hgate hschema
  have hproblems := h.problems
  have hdry := h.dryRun
  generalize (gate p t).pipeline = q at *
  generalize (gate p t).world = v at *
  obtain ⟨more, hredone', hwritten'⟩ := redone_afterCheckpoints hq hids hstands hafter hstable
  have hunmerged : unmerged p = p := unmerged_eq_self h.summary
  -- What was written first, and the modules and files that were written after it.
  have hsummary : r.summary.writtenFiles = files ++ more := by
    rw [hwritten', hwritten, h.summary, List.nil_append]
  have hlast := hredone'.writes (.refl _)
  have hnodup : ((files ++ ((due q.context v).map (·.module) ++ more)).map T.canonical).Nodup := by
    rw [hsummary] at hapart
    refine (List.Perm.nodup_iff (List.Perm.map _ ?_)).mp hapart
    rw [List.append_assoc]
    exact List.perm_append_comm.append_left files
  obtain ⟨T₂, hagain, hsame⟩ := hredone.again _ hlast hnodup T rfl
  rw [List.map_append] at hnodup
  obtain ⟨T₃, hagain', hsame'⟩ := hredone'.again [] (.refl hlast.sound T [])
    (by rw [List.append_nil]; exact hnodup.of_append_right) T₂ hsame
  rw [hunmerged] at hagain
  have hphases := exec_phases_of_gate hagain hproblems hdry
  rw [exec_conclusion hagain'] at hphases
  obtain ⟨hanswer, hworld⟩ := generate_eq hload T
  rw [hanswer, hworld, hphases]
  exact ⟨rfl, hsame'⟩

end

/-- A tree with a schema, below a directory, and nothing else. -/
def singleTree : Tree :=
  ⟨["p"], [(["p"], .directory), (["p", "schema"], .directory),
    (["p", "schema", "Query.graphql"],
      .file (Text.Utf8.encode "type Query \x7b a: Int @resolve \x7d".toList))]⟩

def singleConfig : Configuration :=
  ⟨⟨""⟩, [(schemaId, .table [("input_path", .string "schema")]),
    (declarationsId, .table [("output_path", .string "t")]),
    (resolversId, .table [("output_path", .string "r")])]⟩

/-- The pipeline that the configuration is loaded to. -/
def singlePipeline : Pipeline (StateM Tree) where
  baseDir := ⟨""⟩
  context := .ofSettings .empty
  plugins :=
    [⟨schemaPlugin _, .table [("input_path", .string "schema")], schemaPhases none⟩,
      ⟨declarationsPlugin _, .table [("output_path", .string "t")], declarationPhases none⟩,
      ⟨resolversPlugin _, .table [("output_path", .string "r")], resolverPhases none⟩]
  moduleProblems := []
  summary := ⟨[], []⟩

/-- The source that the configuration names. -/
def singleSource : SchemaSource := .create ⟨"schema"⟩ SchemaSource.defaultExtensions

/-- The update that is due in the run. -/
def singleUpdate : Update := ⟨"./Query.graphql", ⟨"r/Query.ts"⟩, [⟨"Query", "a"⟩], "QueryResolvers"⟩

theorem merge_singleUpdate :
    merge (some (freshModule singleUpdate)) singleUpdate = .ok (freshModule singleUpdate) := by
  have hstubs : freshStubs singleUpdate = [⟨"Query", "a"⟩] := freshStubs_of_unique (by decide)
  have hfollows : Parser.Follows (draft singleUpdate) := by
    intro _
    rw [draft, hstubs]
    decide +kernel
  exact merge_freshModule ⟨by decide, by decide, by decide⟩ (by decide) hfollows

/-- A run that creates a module is done again without merging it. -/
theorem single_generate_again :
    ∃ s T, answer (generate singleConfig false : StateM Tree _) singleTree = .ok s ∧
      T = worldAfter (generate singleConfig false : StateM Tree _) singleTree ∧
      s.mergedModules = [⟨"r/Query.ts"⟩] ∧
      s.writtenFiles = [⟨"t/index.ts"⟩, ⟨"t/Query.graphql.ts"⟩, ⟨"t/schema.graphql"⟩] ∧
      answer (generate singleConfig false : StateM Tree _) T = .ok ⟨[], s.writtenFiles⟩ ∧
      Same T (worldAfter (generate singleConfig false : StateM Tree _) T) := by
  have hload : (Registry.builtIn (StateM Tree)).pipeline singleConfig false = .ok singlePipeline :=
    rfl
  have hsound : singleTree.Sound := sound_of_entries rfl (by decide +kernel)
  have hrun :
      let T := worldAfter (generate singleConfig false : StateM Tree _) singleTree
      let g := gate singlePipeline singleTree
      let written : List Path := [⟨"t/index.ts"⟩, ⟨"t/Query.graphql.ts"⟩, ⟨"t/schema.graphql"⟩]
      (answer (generate singleConfig false : StateM Tree _) singleTree).toOption =
          some ⟨[⟨"r/Query.ts"⟩], written⟩ ∧
        due g.pipeline.context g.world = [singleUpdate] ∧
        ((written ++ [singleUpdate.module]).map T.canonical).Nodup ∧
        (textAt T singleUpdate.module).toOption =
          some (some (freshModule singleUpdate)) ∧
        (answer (singleSource.files : Action (StateM Tree) _).run T).toOption =
          some [⟨"schema/Query.graphql"⟩] ∧
        T.kind singleSource.path = .ok .directory ∧
        (T.trail true singleSource.path).target? = some ["p", "schema"] ∧
        SchemaSource.Spared T (written ++ [singleUpdate.module]) ["p", "schema"] ∧ T.Tidy := by
    decide +kernel
  obtain ⟨hok, hdue, hapart, htext, hfiles, hkind, hplace, hspared, htidy⟩ := hrun
  -- What is needed of the schema and of the module, from what stands in the tree at the end.
  obtain ⟨r, hcompleted, hsummary⟩ :=
    completed_of_ok hload (by decide) hsound (eq_ok_of_toOption hok) rfl
  obtain ⟨place, htrail⟩ := kind_directory_iff.mp hkind
  rw [htrail] at hplace
  obtain rfl := Option.some.inj hplace
  have hsource : (schemaSource ⟨schemaId, ⟨""⟩, .table [("input_path", .string "schema")]⟩).toOption =
      some singleSource := by decide +kernel
  have hschema := schema_stands hcompleted (by decide) rfl (eq_ok_of_toOption hsource)
    (eq_ok_of_toOption hfiles) <| by
      rw [← hsummary, hdue]
      exact SchemaSource.clear_of_spared htidy htrail hspared (eq_ok_of_toOption hfiles)
  obtain ⟨hagain, hsame⟩ := generate_again singleConfig singlePipeline singleTree _ _ hload
    (by decide) hsound (eq_ok_of_toOption hok) rfl _ hdue.symm hschema hapart
    (List.forall_mem_singleton.mpr (stable_of_merge (eq_ok_of_toOption htext) merge_singleUpdate))
  exact ⟨_, _, eq_ok_of_toOption hok, rfl, rfl, rfl, hagain, hsame⟩

end TypeLoom.Plugins
