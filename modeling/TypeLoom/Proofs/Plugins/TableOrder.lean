import TypeLoom.Proofs.Plugins.Agreement
import TypeLoom.Proofs.Plugins.Shuffled
import TypeLoom.Proofs.Plugins.Tables

/-!
# Tables in another order

Plugins are run in the order in which a configuration names them. Main statement: two runs that
differ in this order find the same problems with a schema, or end alike and leave the same files,
unless the file system fails in one of them.
-/

namespace TypeLoom.Plugins

open Files Files.Tree Pipeline Collected Generation
open ResolverModule (Parser)

/-! ### What plugins depend on -/

/-- It is known where files go. -/
def PathsKnown (c : Context) : Prop := ∀ b, ∃ paths, c.settings.outputPaths? b = some paths

theorem fileBound_declarationPaths (plugin : String) {c : Context} (hpaths : PathsKnown c)
    {f : OutputPaths → Action (StateM Tree) Report} (hf : ∀ paths, FileBound (f paths)) :
    FileBound (declarationPaths plugin c >>= f) := by
  intro t e h
  obtain ⟨paths, hsome⟩ := hpaths (inputIsFile c t)
  rw [(run_declarationPaths plugin c f hsome).1] at h
  exact hf paths t e h

theorem fileBound_writeSnapshot {c : Context} (hpaths : PathsKnown c) :
    FileBound (writeSnapshot c : Action (StateM Tree) _) := by
  unfold writeSnapshot
  cases c.document with
  | none => exact fileBound_pure _
  | some d => exact fileBound_declarationPaths _ hpaths fun _ => fileBound_writeFiles _

theorem fileBound_updateModules [Parser] {c : Context} (hpaths : PathsKnown c) :
    FileBound (updateModules c : Action (StateM Tree) _) := by
  intro t e h
  obtain ⟨paths, hsome⟩ := hpaths (inputIsFile c t)
  rw [(updateModules_eq hsome).1] at h
  cases h

/-- An action that reports the same wherever it succeeds, and fails only where the file system
does. -/
structure Steady (x : Action (StateM Tree) Report) : Prop where
  bound : FileBound x
  definite : ∀ t t' r r', answer x.run t = .ok r → answer x.run t' = .ok r' → r = r'

theorem steady_pure (r : Report) : Steady (pure r) where
  bound := fileBound_pure r
  definite := by
    rintro t t' _ _ ⟨⟩ ⟨⟩
    rfl

theorem steady_writeFiles (files : List (Path × String)) :
    Steady (writeFiles files : Action (StateM Tree) _) where
  bound := fileBound_writeFiles files
  definite t t' r r' hr hr' := by
    rw [writeFiles_eq] at hr hr'
    rw [(reporting_ok hr).2, (reporting_ok hr').2]

theorem alike_declarationPaths {E : Failure → Prop} (plugin : String) {c : Context} {t t' : Tree}
    (hpaths : PathsKnown c) (hinput : inputIsFile c t' = inputIsFile c t)
    {f : OutputPaths → Action (StateM Tree) Report} (hf : ∀ paths, Steady (f paths)) :
    Alike E Eq (answer (declarationPaths plugin c >>= f).run t)
      (answer (declarationPaths plugin c >>= f).run t') := by
  obtain ⟨paths, hsome⟩ := hpaths (inputIsFile c t)
  rw [(run_declarationPaths plugin c f hsome).1,
    (run_declarationPaths plugin c f (hinput ▸ hsome)).1]
  exact (hf paths).bound.alike_eq ((hf paths).definite t t')

namespace BuiltIn

variable {l : LoadedPlugin (StateM Tree)} {c : Context}

/-- Before a schema is read a plugin creates directories for paths, and changes nothing else. -/
theorem lays [Parser] (h : BuiltIn l) (c : Context) : ∃ ps, Lays ps (l.phases.initial c) := by
  cases h with
  | schema value source => exact ⟨[], lays_of_still (still_loadReport source)⟩
  | declarations value output => exact lays_prepare output c
  | resolvers value output => exact lays_prepare output c
  | requestContext value => exact ⟨[], lays_of_still (still_run_pure _)⟩

theorem fileBound_initial [Parser] (h : BuiltIn l) (hid : l.plugin.id ≠ schemaId) (c : Context) :
    FileBound (l.phases.initial c) := by
  cases h with
  | schema value source => exact absurd rfl hid
  | declarations value output => exact fileBound_prepare output c
  | resolvers value output => exact fileBound_prepare output c
  | requestContext value => exact fileBound_pure _

/-- Before a schema is read a plugin reports a document, if anything. -/
theorem report_initial [Parser] (h : BuiltIn l) {u : Tree} {r : Report}
    (hr : answer (l.phases.initial c).run u = .ok r) :
    (l.plugin.id ≠ schemaId ∧ r = .empty) ∨ (l.plugin.id = schemaId ∧ ∃ d, r = .ofDocument d) := by
  have hprepare : ∀ output,
      answer (prepare output c : Action (StateM Tree) Report).run u = .ok r → r = .empty := by
    intro output hr
    rcases prepare_cases output c with h | ⟨q, h⟩
    · rw [h] at hr
      cases hr
      rfl
    · rw [h] at hr
      exact (reporting_ok hr).2
  cases h with
  | schema value source =>
    obtain ⟨s, d, -, -, hd⟩ := loadReport_ok hr
    exact .inr ⟨rfl, d, hd⟩
  | declarations value output =>
    exact .inl ⟨(by decide : declarationsId ≠ schemaId), hprepare output hr⟩
  | resolvers value output => exact .inl ⟨(by decide : resolversId ≠ schemaId), hprepare output hr⟩
  | requestContext value =>
    cases hr
    exact .inl ⟨(by decide : requestContextId ≠ schemaId), rfl⟩

/-- What a plugin reports before a schema is read is the same, wherever directories were created. -/
theorem alike_initial [Parser] (h : BuiltIn l) {t u u' : Tree} (hs : t.Sound)
    (hsource : l.plugin.id = schemaId → ∃ s, l.phases = schemaPhases (some s) ∧
      ∃ k, t.kind s.path = .ok k)
    (hu : Furnished t u) (hu' : Furnished t u') :
    Alike Textual Eq (answer (l.phases.initial c).run u) (answer (l.phases.initial c).run u') := by
  by_cases hid : l.plugin.id = schemaId
  · obtain ⟨s, hphases, k, hk⟩ := hsource hid
    rw [hphases]
    show Alike Textual Eq (answer (loadReport (some s) : Action (StateM Tree) _).run u)
      (answer (loadReport (some s) : Action (StateM Tree) _).run u')
    rw [answer_loadReport, answer_loadReport]
    exact (SchemaSource.load_alike hs hu hu' hk).map fun _ _ hd => congrArg Report.ofDocument hd
  · refine (h.fileBound_initial hid c).alike_eq fun r r' hr hr' => ?_
    have hempty := (h.report_initial hr).resolve_right fun hschema => hid hschema.1
    have hempty' := (h.report_initial hr').resolve_right fun hschema => hid hschema.1
    rw [hempty.2, hempty'.2]

theorem has_collect [Parser] (h : BuiltIn l) :
    l.has .collect = (l.plugin.id == declarationsId) := by
  cases h <;> rfl

theorem has_validate [Parser] (h : BuiltIn l) : l.has .validate = (l.plugin.id == schemaId) := by
  cases h <;> rfl

/-- A plugin that acts once the schema is collected says where files go, or requires one that does. -/
theorem directs [Parser] (h : BuiltIn l) (hhas : l.has .collected = true) :
    l.plugin.id = declarationsId ∨ declarationsId ∈ l.plugin.requires := by
  cases h with
  | schema value source => cases hhas
  | declarations value output => exact .inl rfl
  | resolvers value output => exact .inr (List.mem_singleton_self _)
  | requestContext value => cases hhas

theorem has_collected [Parser] (h : BuiltIn l) {phase : Phase}
    (hphase : phase = .transform ∨ phase = .finalized) (hhas : l.has phase = true) :
    l.has .collected = true := by
  cases h with
  | schema value source => rcases hphase with rfl | rfl <;> cases hhas
  | declarations value output => rfl
  | resolvers value output => rfl
  | requestContext value => rcases hphase with rfl | rfl <;> cases hhas

/-- A plugin that acts once the schema is collected needs to know where files go, and nothing else of
the tree. -/
theorem collected_eq [Parser] (h : BuiltIn l) (hhas : l.has .collected = true) (c : Context) :
    ∃ plugin f, l.phases.collected c = declarationPaths plugin c >>= f ∧
      ∀ paths, Steady (f paths) := by
  cases h with
  | schema value source => cases hhas
  | declarations value output =>
    refine ⟨_, _, rfl, fun paths => ?_⟩
    dsimp only
    split
    · exact steady_pure _
    · split
      · exact steady_pure _
      · exact steady_writeFiles _
  | resolvers value output => exact ⟨_, _, rfl, fun _ => steady_pure _⟩
  | requestContext value => cases hhas

theorem fileBound_collected [Parser] (h : BuiltIn l) (hhas : l.has .collected = true)
    (hpaths : PathsKnown c) : FileBound (l.phases.collected c) := by
  obtain ⟨plugin, f, hcollected, hf⟩ := h.collected_eq hhas c
  rw [hcollected]
  exact fileBound_declarationPaths plugin hpaths fun paths => (hf paths).bound

/-- What a plugin reports of a schema is the same, whatever other plugins wrote. -/
theorem alike_collected [Parser] {E : Failure → Prop} (h : BuiltIn l)
    (hhas : l.has .collected = true)
    {t u u' : Tree} (hpaths : PathsKnown c) (hinput : InputStands c t) (hu : Later t u)
    (hu' : Later t u') :
    Alike E Eq (answer (l.phases.collected c).run u) (answer (l.phases.collected c).run u') := by
  obtain ⟨plugin, f, hcollected, hf⟩ := h.collected_eq hhas c
  rw [hcollected]
  refine alike_declarationPaths plugin hpaths ?_ hf
  rw [hinput.inputIsFile_eq hu', hinput.inputIsFile_eq hu]

theorem still_collected_of_has [Parser] (h : BuiltIn l) (hhas : l.has .finalized = false) :
    Still (l.phases.collected c).run := by
  cases h with
  | schema value source => exact still_run_pure _
  | declarations value output => cases hhas
  | resolvers value output => exact (still_outputPaths _ _ _ c).run_bind fun _ => still_run_pure _
  | requestContext value => exact still_run_pure _

theorem congruent_collected [Parser] (h : BuiltIn l) (c : Context) :
    Congruent (l.phases.collected c).run := by
  cases h with
  | schema value source => exact congruent_run_pure _
  | declarations value output => exact congruent_writeDeclarations c
  | resolvers value output => exact congruent_reportConflicts c
  | requestContext value => exact congruent_run_pure _

end BuiltIn

/-! ### Runs of the same plugins -/

/-- Two runs before any module is touched, of the same plugins in different orders. -/
structure Shuffled [Parser] (p : Pipeline (StateM Tree)) (v : Tree) (p' : Pipeline (StateM Tree))
    (v' : Tree) :
    Prop where
  underway : Underway p v
  underway' : Underway p' v'
  plugins : p'.plugins.Perm p.plugins
  ids : (p.plugins.map (·.plugin.id)).Nodup
  written : p'.summary.writtenFiles.Perm p.summary.writtenFiles

/-- In a phase in which one plugin takes part its place among the others does not matter. -/
theorem participants_eq_of_perm [Parser] {p p' : Pipeline (StateM Tree)}
    (hls : ∀ l ∈ p.plugins, BuiltIn l)
    (hids : (p.plugins.map (·.plugin.id)).Nodup) (hperm : p'.plugins.Perm p.plugins) {phase : Phase}
    {id : String} (hhas : ∀ l, BuiltIn l → l.has phase = (l.plugin.id == id)) :
    p'.participants phase = p.participants phase := by
  rw [participants, participants, List.filter_congr fun l hl => hhas l (hls l hl),
    List.filter_congr fun l hl => hhas l (hls l (hperm.mem_iff.mp hl))]
  exact (Sorting.filter_eq_of_perm hperm.symm hids id).symm

/-- Where files go is known to the plugins that act once the schema is collected. -/
def Directed (p : Pipeline (StateM Tree)) : Prop :=
  ∀ l ∈ p.participants .collected, PathsKnown p.context

/-- Before the plugins are configured, as none of them will fail to be, where the input of each table
stands. -/
structure Outlined [Parser] (t : Tree) (p : Pipeline (StateM Tree)) (v : Tree)
    (p' : Pipeline (StateM Tree)) (v' : Tree) : Prop where
  shuffled : Shuffled p v p' v'
  still : v = t
  still' : v' = t
  baseDir : p'.baseDir = p.baseDir
  context : p'.context = p.context
  none : p.context.settings.schemaInput = none
  schema : schemaId ∈ p.plugins.map (·.plugin.id)
  requires : ∀ l ∈ p.plugins, ∀ id ∈ l.plugin.requires, id ∈ p.plugins.map (·.plugin.id)
  inputs : ∀ value, (schemaId, value) ∈ entries p.plugins → ∀ s,
    schemaSource ⟨schemaId, p.baseDir, value⟩ = .ok s → ∃ k, t.kind s.path = .ok k
  valid : (exec configure p v).outcome = .ok ()

/-- Once the plugins are configured. -/
structure Primed [Parser] (t : Tree) (p : Pipeline (StateM Tree)) (v : Tree)
    (p' : Pipeline (StateM Tree)) (v' : Tree) : Prop where
  shuffled : Shuffled p v p' v'
  still : v = t
  still' : v' = t
  context : p'.context = p.context
  schema : schemaId ∈ p.plugins.map (·.plugin.id)
  inputs : ∀ l ∈ p.plugins, l.plugin.id = schemaId → ∃ s, l.phases = schemaPhases (some s) ∧
    ∃ k, t.kind s.path = .ok k
  stands : InputStands p.context t
  directed : Directed p

/-- Once the schema is loaded. -/
structure Level [Parser] (p : Pipeline (StateM Tree)) (v : Tree) (p' : Pipeline (StateM Tree))
    (v' : Tree) :
    Prop where
  shuffled : Shuffled p v p' v'
  same : Same v v'
  context : p'.context = p.context
  loaded : p.context.document.isSome = true
  stands : InputStands p.context v
  directed : Directed p

/-- Once declarations are written, when problems may have been found in different orders. -/
structure Settled [Parser] (p : Pipeline (StateM Tree)) (v : Tree) (p' : Pipeline (StateM Tree))
    (v' : Tree) :
    Prop where
  shuffled : Shuffled p v p' v'
  same : Same v v'
  directed : Directed p
  problems : ∃ (c : Context) (ps ps' : List Schema.Problem), ps'.Perm ps ∧
    p.context = c.addProblems ps ∧ p'.context = c.addProblems ps'

theorem Shuffled.step [Parser] {p p' : Pipeline (StateM Tree)} {v v' : Tree}
    {x : Running (StateM Tree) Unit} (h : Shuffled p v p' v') (hx : Preliminary x)
    (hplugins : (exec x p' v').pipeline.plugins.Perm (exec x p v).pipeline.plugins)
    (hids : (exec x p v).pipeline.plugins.map (·.plugin.id) = p.plugins.map (·.plugin.id))
    (hwritten : (exec x p' v').pipeline.summary.writtenFiles.Perm
      (exec x p v).pipeline.summary.writtenFiles) :
    Shuffled (exec x p v).pipeline (exec x p v).world (exec x p' v').pipeline
      (exec x p' v').world where
  underway := hx p v h.underway
  underway' := hx p' v' h.underway'
  plugins := hplugins
  ids := hids ▸ h.ids
  written := hwritten

theorem outputPaths?_of_isSome {s : Settings} (hinput : s.schemaInput.isSome = true)
    (houtput : s.typesOutput.isSome = true) (b : Bool) : ∃ paths, s.outputPaths? b = some paths := by
  obtain ⟨input, hinput⟩ := Option.isSome_iff_exists.mp hinput
  obtain ⟨output, houtput⟩ := Option.isSome_iff_exists.mp houtput
  unfold Settings.outputPaths?
  rw [hinput, houtput]
  exact ⟨_, rfl⟩

theorem paces_configure_shuffled [Parser] (t : Tree) :
    Paces Textual (Outlined t) (Primed t) configure := by
  intro p v p' v' h
  have hls := h.shuffled.underway.builtIn
  have hok : (answer (configureAll p.baseDir p.plugins p.context) v).1 = .ok () := by
    have hvalid := h.valid
    rwa [exec_configure] at hvalid
  obtain ⟨f, s, hr, hr', hinput, houtput⟩ :=
    configureAll_perm hls h.shuffled.ids h.shuffled.plugins hok
  -- The same configuration once more, for where the schema is loaded from.
  obtain ⟨r, hr'', hentries, -, hconfigured⟩ := configureAll_eq p.baseDir hls p.context
  obtain rfl := congrArg (answer · v) (hr''.symm.trans hr)
  have hx : exec configure p v = ⟨.ok (), { p with
      plugins := p.plugins.map fun l => { l with phases := f l },
      context := { p.context with settings := s } }, v⟩ := by
    rw [exec_configure, hr]
    rfl
  have hx' : exec configure p' v' = ⟨.ok (), { p' with
      plugins := p'.plugins.map fun l => { l with phases := f l },
      context := { p.context with settings := s } }, v'⟩ := by
    rw [exec_configure, h.baseDir, h.context, hr']
    rfl
  have hids : (p.plugins.map fun l => { l with phases := f l }).map (·.plugin.id) =
      p.plugins.map (·.plugin.id) := List.map_map
  have hshuffled := h.shuffled.step preliminary_configure
    (by rw [hx, hx']; exact h.shuffled.plugins.map _) (by rw [hx]; exact hids)
    (by rw [hx, hx']; exact h.shuffled.written)
  rw [hx, hx'] at hshuffled ⊢
  have hsources := hconfigured rfl
  rw [h.none] at hsources
  obtain ⟨hinputs, hstands⟩ := hsources.grounded (hentries.symm ▸ h.inputs)
  refine .ok ⟨hshuffled, h.still, h.still', rfl, ?_, hinputs, hstands, fun l hl => ?_⟩
  · exact hids ▸ h.schema
  · have hdeclares : declarationsId ∈ p.plugins.map (·.plugin.id) := by
      obtain ⟨hmem, hhas⟩ := List.mem_filter.mp hl
      obtain ⟨k, hk, rfl⟩ := List.mem_map.mp hmem
      rcases (hls k hk).directs hhas with hid | hid
      · exact hid ▸ List.mem_map_of_mem hk
      · exact h.requires k hk _ hid
    exact outputPaths?_of_isSome (hinput h.schema) (houtput hdeclares)

/-! ### Phases that work on files -/

theorem Directed.foldl_apply {p : Pipeline (StateM Tree)} (h : Directed p) (rs : List Report) :
    Directed (rs.foldl apply p) := by
  intro l hl b
  rw [participants, plugins_foldl_apply] at hl
  rw [settings_foldl_apply]
  exact h l hl b

/-- A phase that works on files, if in both runs the plugins report the same. -/
theorem Shuffled.filePhase [Parser] {p p' : Pipeline (StateM Tree)} {v v' : Tree} {phase : Phase}
    {act : Phases (StateM Tree) → Context → Action (StateM Tree) Report} {E : Failure → Prop}
    {J : Relation Tree} {x x' : Except Failure (List Report) × Tree} (h : Shuffled p v p' v')
    (hcontext : p'.context = p.context) (hmild : ∀ l, BuiltIn l → ∀ c, Mild (act l.phases c))
    (hx : gather (fun l => act l.phases p.context) (p.participants phase) v = x)
    (hx' : gather (fun l => act l.phases p.context) (p'.participants phase) v' = x')
    (hgather : Alike E (fun rs rs' => rs'.Perm rs) x.1 x'.1)
    (hJ : ∀ rs rs', x.1 = .ok rs → x'.1 = .ok rs' → rs'.Perm rs →
      Shuffled (rs.foldl apply p) x.2 (rs'.foldl apply p') x'.2 →
      J (rs.foldl apply p) x.2 (rs'.foldl apply p') x'.2) :
    Alike E (fun _ _ => J (exec (filePhase phase act) p v).pipeline
        (exec (filePhase phase act) p v).world (exec (filePhase phase act) p' v').pipeline
        (exec (filePhase phase act) p' v').world)
      (exec (filePhase phase act) p v).outcome (exec (filePhase phase act) p' v').outcome := by
  have hstep := h.step (x := Pipeline.filePhase phase act) (preliminary_filePhase hmild)
  rw [exec_filePhase, exec_filePhase, hcontext, hx, hx'] at hstep ⊢
  obtain ⟨outcome, w⟩ := x
  obtain ⟨outcome', w'⟩ := x'
  dsimp only at hgather
  cases hgather with
  | @ok rs rs' hrs =>
    refine .ok (hJ rs rs' rfl rfl hrs (hstep ?_ ?_ ?_))
    · rw [plugins_foldl_apply, plugins_foldl_apply]
      exact h.plugins
    · rw [plugins_foldl_apply]
    · rw [foldl_apply_eq (·.summary.writtenFiles) (·.writtenFiles) (fun _ _ => rfl) rs p,
        foldl_apply_eq (·.summary.writtenFiles) (·.writtenFiles) (fun _ _ => rfl) rs' p']
      exact h.written.append (hrs.flatMap_right _)
  | error he => exact .error he
  | left path problem y => exact .left path problem _
  | right path problem x => exact .right path problem _

theorem isSome_foldl_addDocument {ds : List Schema.Document} {d : Schema.Document} (h : d ∈ ds)
    (c : Context) : (ds.foldl Context.addDocument c).document.isSome = true := by
  have hadds : ∀ (c : Context) (d : Schema.Document), (c.addDocument d).document.isSome = true := by
    intro c d
    rw [Context.addDocument]
    split <;> rfl
  exact foldl_establishes (P := fun c : Context => c.document.isSome = true)
    (fun d _ c _ => hadds c d) h (fun c => hadds c d) c

/-- Once the schema is loaded, both runs know the same of it. -/
theorem context_initial [Parser] {p p' : Pipeline (StateM Tree)} {v : Tree} {rs rs' : List Report}
    (hls : ∀ l ∈ p.plugins, BuiltIn l) (hids : (p.plugins.map (·.plugin.id)).Nodup)
    (hschema : schemaId ∈ p.plugins.map (·.plugin.id)) (hcontext : p'.context = p.context)
    (hrs : (gather (fun l => l.phases.initial p.context) (p.participants .initial) v).1 = .ok rs)
    (hperm : rs'.Perm rs) :
    (rs'.foldl apply p').context = (rs.foldl apply p).context ∧
      (rs.foldl apply p).context.document.isSome = true := by
  have hbuiltIn : ∀ l ∈ p.participants .initial, BuiltIn l :=
    fun l hl => hls l (List.mem_of_mem_filter hl)
  have hsilent : ∀ r ∈ rs, r.problems = [] := by
    intro r hr
    obtain ⟨l, hl, u, ha⟩ := exists_of_mem_gather hrs hr
    rcases (hbuiltIn l hl).report_initial ha with ⟨-, rfl⟩ | ⟨-, d, rfl⟩ <;> rfl
  have hproblems : rs.flatMap (·.problems) = [] := List.flatMap_eq_nil_iff.mpr hsilent
  have hproblems' : rs'.flatMap (·.problems) = [] :=
    List.flatMap_eq_nil_iff.mpr fun r hr => hsilent r (hperm.mem_iff.mp hr)
  have hdocuments : rs.flatMap (·.documents) = rs'.flatMap (·.documents) :=
    Sorting.eq_of_perm_of_length_le_one (hperm.symm.flatMap_right _)
      ((length_documents_gather hbuiltIn hrs).trans
        (List.nodup_iff_count_le_one.mp (nodup_participants hids .initial) schemaId))
  refine ⟨?_, ?_⟩
  · rw [context_foldl_apply, context_foldl_apply, hproblems, hproblems', hdocuments, hcontext]
  · obtain ⟨l, hl, hid⟩ := List.mem_map.mp hschema
    have hmem : l ∈ p.participants .initial :=
      List.mem_filter.mpr ⟨hl, (hls l hl).has_initial hid⟩
    obtain ⟨r, hr, u, -, ha⟩ := forall₂_exists
      (answers_of_gather (S := fun _ => True) (fun _ _ _ _ _ _ => trivial) trivial hrs).1 hmem
    obtain ⟨-, d, rfl⟩ := ((hls l hl).report_initial ha).resolve_left fun h => h.1 hid
    rw [document_foldl_apply]
    exact isSome_foldl_addDocument (List.mem_flatMap.mpr ⟨_, hr, List.mem_singleton_self d⟩) _

theorem paces_initial_shuffled [Parser] (t : Tree) :
    Paces Textual (Primed t) Level (filePhase .initial (·.initial)) := by
  intro p v p' v' h
  obtain rfl := h.still
  obtain rfl := h.still'
  have hs := h.shuffled.underway.sound
  have hperm : (p'.participants .initial).Perm (p.participants .initial) :=
    h.shuffled.plugins.filter _
  have hplugin : ∀ l ∈ p.participants .initial, l ∈ p.plugins := fun _ => List.mem_of_mem_filter
  have hls : ∀ l ∈ p.participants .initial, BuiltIn l :=
    fun l hl => h.shuffled.underway.builtIn l (hplugin l hl)
  have hkeep : Keep (fun u => u.Sound ∧ Furnished v' u) (fun l => l.phases.initial p.context)
      (p.participants .initial) := by
    intro l hl u r hu hr
    obtain ⟨ps, hps⟩ := (hls l hl).lays p.context
    have hlaid := (hps u r hu.1 hr).1
    exact ⟨hlaid.sound, hu.2.trans hlaid.furnished⟩
  refine h.shuffled.filePhase h.context (fun _ hl c => hl.mild_initial c) rfl rfl ?_ ?_
  · refine gather_perm hperm hkeep
      (fun l hl u u' hu hu' => (hls l hl).alike_initial hs (h.inputs l (hplugin l hl)) hu.2 hu'.2)
      (fun l hl k hk => ?_) ⟨hs, .refl v'⟩ ⟨hs, .refl v'⟩
    -- Only the plugin that loads the schema fails for reasons of its own, and there is one of it.
    by_cases hl' : l.plugin.id = schemaId
    · by_cases hk' : k.plugin.id = schemaId
      · have hsame := List.inj_on_of_nodup_map h.shuffled.ids (hplugin l hl) (hplugin k hk)
        exact .inr (.inr (hsame (hl'.trans hk'.symm)))
      · exact .inr (.inl ((hls k hk).fileBound_initial hk' p.context))
    · exact .inl ((hls l hl).fileBound_initial hl' p.context)
  · intro rs rs' hrs hrs' hperm' hshuffled
    obtain ⟨hcontext, hloaded⟩ := context_initial h.shuffled.underway.builtIn h.shuffled.ids h.schema
      h.context hrs hperm'
    have hlater := (answers_of_gather hkeep ⟨hs, .refl v'⟩ hrs).2.2.later
    have hsame := gather_laid_perm hperm (fun l hl => (hls l hl).lays p.context) hs hrs hrs'
    refine ⟨hshuffled, hsame, hcontext, hloaded, fun path hpath => ?_, h.directed.foldl_apply rs⟩
    rw [settings_foldl_apply] at hpath
    exact h.stands.later hlater path hpath

theorem paces_collectAndValidate_shuffled [Parser] :
    Paces Textual Level Level collectAndValidate := by
  intro p v p' v' h
  have hls := h.shuffled.underway.builtIn
  obtain ⟨d, hd⟩ := Option.isSome_iff_exists.mp h.loaded
  obtain ⟨c, hc, hretains⟩ := collecting_eq hls d
  have hc' : collecting p' d = pure c := by
    rw [← hc, collecting, collecting, h.context,
      participants_eq_of_perm hls h.shuffled.ids h.shuffled.plugins fun _ hl => hl.has_collect,
      participants_eq_of_perm hls h.shuffled.ids h.shuffled.plugins fun _ hl => hl.has_validate]
  have hstep := h.shuffled.step preliminary_collectAndValidate
  rw [exec_collectAndValidate, exec_collectAndValidate, h.context, hd] at hstep ⊢
  dsimp only at hstep ⊢
  rw [hc, hc'] at hstep ⊢
  refine .ok ⟨hstep h.shuffled.plugins rfl h.shuffled.written, h.same, rfl, ?_, fun path hpath => ?_,
    fun l hl b => ?_⟩
  · exact (congrArg Option.isSome hretains.document).trans h.loaded
  · exact h.stands path (hretains.settings ▸ hpath)
  · exact hretains.settings ▸ h.directed l hl b

/-- Only the plugin that writes declarations changes files once the schema is collected, and there is
one of it. -/
theorem same_collected [Parser] {ls ks : List (LoadedPlugin (StateM Tree))} {c : Context}
    {v v' : Tree}
    {rs rs' : List Report} (hls : ∀ l ∈ ls, BuiltIn l) (hids : (ls.map (·.plugin.id)).Nodup)
    (hperm : ks.Perm ls) (h : Same v v')
    (hrs : (gather (fun l => l.phases.collected c) ls v).1 = .ok rs)
    (hrs' : (gather (fun l => l.phases.collected c) ks v').1 = .ok rs') :
    Same (gather (fun l => l.phases.collected c) ls v).2
      (gather (fun l => l.phases.collected c) ks v').2 := by
  have hks : ∀ l ∈ ks, BuiltIn l := fun l hl => hls l (hperm.mem_iff.mp hl)
  have hwriter : ks.filter (·.has .finalized) = ls.filter (·.has .finalized) := by
    rw [List.filter_congr fun l hl => (hks l hl).has_finalized,
      List.filter_congr fun l hl => (hls l hl).has_finalized]
    exact (Sorting.filter_eq_of_perm hperm.symm hids _).symm
  have hfiltered := gather_filter (q := (·.has .finalized))
    (fun l hl => (hls l hl).still_collected_of_has) hrs
  have hfiltered' := gather_filter (q := (·.has .finalized))
    (fun l hl => (hks l hl).still_collected_of_has) hrs'
  rw [← hfiltered, ← hfiltered', hwriter]
  exact (gather_congr
    (fun l hl => (hls l (List.mem_of_mem_filter hl)).congruent_collected c) h).2

theorem paces_collected_shuffled [Parser] :
    Paces Textual Level Settled (filePhase .collected (·.collected)) := by
  intro p v p' v' h
  have hs := h.shuffled.underway.sound
  have hs' := h.shuffled.underway'.sound
  have hperm : (p'.participants .collected).Perm (p.participants .collected) :=
    h.shuffled.plugins.filter _
  have hls : ∀ l ∈ p.participants .collected, BuiltIn l ∧ l.has .collected = true :=
    fun l hl => (List.mem_filter.mp hl).imp_left (h.shuffled.underway.builtIn l)
  have hkeep : Keep (fun u => u.Sound ∧ Later v u) (fun l => l.phases.collected p.context)
      (p.participants .collected) := by
    intro l hl u r hu hr
    have hwrites := (hls l hl).1.restrained_collected p.context _ u r hu.1 hr (.refl _)
    exact ⟨hwrites.sound, hu.2.trans hwrites.later⟩
  refine h.shuffled.filePhase h.context (fun _ hl c => hl.mild_collected c) rfl rfl ?_ ?_
  · refine gather_perm hperm hkeep (fun l hl u u' hu hu' => ?_) (fun l hl _ _ => .inl ?_)
      ⟨hs, .refl v⟩ ⟨hs', h.same.later⟩
    · exact (hls l hl).1.alike_collected (hls l hl).2 (h.directed l hl) h.stands hu.2 hu'.2
    · exact (hls l hl).1.fileBound_collected (hls l hl).2 (h.directed l hl)
  · intro rs rs' hrs hrs' hperm' hshuffled
    have hdocuments : ∀ r ∈ rs, r.documents = [] := by
      intro r hr
      obtain ⟨l, hl, u, ha⟩ := exists_of_mem_gather hrs hr
      exact (hls l hl).1.undocumented_collected p.context u r ha
    have hcontext : (rs.foldl apply p).context = p.context.addProblems (rs.flatMap (·.problems)) := by
      rw [context_foldl_apply, List.flatMap_eq_nil_iff.mpr hdocuments]
      rfl
    have hcontext' : (rs'.foldl apply p').context =
        p.context.addProblems (rs'.flatMap (·.problems)) := by
      rw [context_foldl_apply, h.context,
        List.flatMap_eq_nil_iff.mpr fun r hr => hdocuments r (hperm'.mem_iff.mp hr)]
      rfl
    exact ⟨hshuffled, same_collected (fun l hl => (hls l hl).1) (nodup_participants h.shuffled.ids _)
      hperm h.same hrs hrs', h.directed.foldl_apply rs, p.context, _, _,
      hperm'.flatMap_right (·.problems), hcontext, hcontext'⟩

theorem paces_untilSecondCheckpoint_shuffled [Parser] (t : Tree) :
    Paces Textual (Outlined t) Settled untilSecondCheckpoint :=
  ((paces_configure_shuffled t).bind
    ((paces_initial_shuffled t).bind paces_collectAndValidate_shuffled)).bind
      ((paces_checkpoint (fun ps => .inl ⟨ps, rfl⟩) fun _ _ _ _ h => by rw [h.context]).bind
        paces_collected_shuffled)

/-! ### Behind the gate -/

/-- Two runs behind the gate that know the same. -/
structure Twins [Parser] (p : Pipeline (StateM Tree)) (v : Tree) (p' : Pipeline (StateM Tree))
    (v' : Tree) :
    Prop where
  builtIn : ∀ l ∈ p.plugins, BuiltIn l
  plugins : p'.plugins.Perm p.plugins
  ids : (p.plugins.map (·.plugin.id)).Nodup
  context : p'.context = p.context
  modules : p'.moduleProblems = p.moduleProblems
  merged : p'.summary.mergedModules = p.summary.mergedModules
  written : p'.summary.writtenFiles.Perm p.summary.writtenFiles
  same : Same v v'
  directed : Directed p

/-- Without problems both runs know the same. -/
theorem Settled.twins [Parser] {p p' : Pipeline (StateM Tree)} {v v' : Tree} (h : Settled p v p' v')
    (hnone : p.context.problems = []) : Twins p v p' v' := by
  obtain ⟨c, ps, ps', hperm, hcontext, hcontext'⟩ := h.problems
  have hnil : ps = [] := by
    rw [hcontext] at hnone
    exact (List.append_eq_nil_iff.mp hnone).2
  subst hnil
  rw [List.perm_nil] at hperm
  subst hperm
  exact ⟨h.shuffled.underway.builtIn, h.shuffled.plugins, h.shuffled.ids,
    hcontext'.trans hcontext.symm, h.shuffled.underway'.modules.trans h.shuffled.underway.modules.symm,
    h.shuffled.underway'.merged.trans h.shuffled.underway.merged.symm, h.shuffled.written, h.same,
    h.directed⟩

section

variable {p p' : Pipeline (StateM Tree)} {v v' w w' : Tree}

/-- Both runs take over the same report. -/
theorem Twins.apply [Parser] (h : Twins p v p' v') (r : Report) (hsame : Same w w') :
    Twins (p.apply r) w (p'.apply r) w' where
  builtIn := h.builtIn
  plugins := h.plugins
  ids := h.ids
  context := by
    rw [Pipeline.apply, Pipeline.apply, h.context]
  modules := congrArg (· ++ r.moduleProblems) h.modules
  merged := congrArg (· ++ r.mergedModules) h.merged
  written := h.written.append (.refl r.writtenFiles)
  same := hsame
  directed := h.directed.foldl_apply [r]

theorem Twins.foldl_apply [Parser] (h : Twins p v p' v') (rs : List Report) (hsame : Same w w') :
    Twins (rs.foldl Pipeline.apply p) w (rs.foldl Pipeline.apply p') w' := by
  induction rs generalizing p p' v v' with
  | nil => exact { h with same := hsame }
  | cons r rs ih => exact ih (h.apply r hsame)

theorem Twins.participants_eq [Parser] (h : Twins p v p' v') {phase : Phase} {id : String}
    (hhas : ∀ l, BuiltIn l → l.has phase = (l.plugin.id == id)) :
    p'.participants phase = p.participants phase :=
  participants_eq_of_perm h.builtIn h.ids h.plugins hhas

theorem Twins.pathsKnown [Parser] (h : Twins p v p' v') {phase : Phase}
    (hphase : phase = .transform ∨ phase = .finalized) {l : LoadedPlugin (StateM Tree)}
    (hl : l ∈ p.participants phase) : PathsKnown p.context := by
  obtain ⟨hmem, hhas⟩ := List.mem_filter.mp hl
  exact h.directed l (List.mem_filter.mpr ⟨hmem, (h.builtIn l hmem).has_collected hphase hhas⟩)

end

/-- Two runs behind the gate, in which some plugins are yet to bring modules up to date. -/
def Pending [Parser] (ls : List (LoadedPlugin (StateM Tree))) : Relation Tree := fun p v p' v' =>
  (∀ l ∈ ls, l ∈ p.participants .transform) ∧ Twins p v p' v'

theorem paces_transformBy [Parser] (l : LoadedPlugin (StateM Tree))
    (ls : List (LoadedPlugin (StateM Tree))) :
    Paces (fun _ => False) (Pending (l :: ls)) (Pending ls) (transformBy l) := by
  rintro p v p' v' ⟨hmem, h⟩
  obtain ⟨hl, hrest⟩ := List.forall_mem_cons.mp hmem
  have hphases : l.phases.transform = updateModules :=
    (h.builtIn l (List.mem_filter.mp hl).1).transform_eq (List.mem_filter.mp hl).2
  obtain ⟨hanswer, hworld⟩ := congruent_updateModules p.context v v' h.same
  have hbound := fileBound_updateModules (h.pathsKnown (.inl rfl) hl) v
  rw [exec_transformBy, exec_transformBy, h.context, hphases, hanswer]
  cases ha : answer (updateModules p.context : Action (StateM Tree) _).run v with
  | error e =>
    obtain ⟨path, problem, rfl⟩ := hbound e ha
    exact .left path problem _
  | ok r => exact .ok ⟨hrest, h.apply r hworld⟩

theorem paces_transform_shuffled [Parser] : Paces (fun _ => False) Twins Twins transform := by
  have heach : ∀ ls, Paces (fun _ => False) (Pending ls) Twins (ls.forM transformBy) := by
    intro ls
    induction ls with
    | nil => exact fun p v p' v' h => .ok h.2
    | cons l ls ih => exact (paces_transformBy l ls).bind ih
  intro p v p' v' h
  rw [exec_transform, exec_transform, h.participants_eq fun _ hl => hl.has_transform]
  exact heach _ p v p' v' ⟨fun _ hl => hl, h⟩

theorem paces_finalized_shuffled [Parser] :
    Paces (fun _ => False) Twins Twins (filePhase .finalized (·.finalized)) := by
  intro p v p' v' h
  have hls : ∀ l ∈ p.participants .finalized, l.phases.finalized = writeSnapshot :=
    fun l hl => (h.builtIn l (List.mem_filter.mp hl).1).finalized_eq (List.mem_filter.mp hl).2
  have hcongruent : ∀ l ∈ p.participants .finalized,
      Congruent (l.phases.finalized p.context).run := by
    intro l hl
    rw [hls l hl]
    exact congruent_writeSnapshot p.context
  obtain ⟨hanswer, hworld⟩ := gather_congr hcongruent h.same
  have hbound : ∀ e,
      (gather (fun l => l.phases.finalized p.context) (p.participants .finalized) v).1 = .error e →
        ∃ path problem, e = .fileSystem path problem := by
    intro e he
    obtain ⟨l, hl, u, ha⟩ := exists_of_gather_error he
    rw [hls l hl] at ha
    exact fileBound_writeSnapshot (h.pathsKnown (.inr rfl) hl) u e ha
  rw [exec_filePhase, exec_filePhase, h.context, h.participants_eq fun _ hl => hl.has_finalized]
  generalize gather (fun l => l.phases.finalized p.context) (p.participants .finalized) v = x
    at hanswer hworld hbound ⊢
  generalize gather (fun l => l.phases.finalized p.context) (p.participants .finalized) v' = x'
    at hanswer hworld ⊢
  obtain ⟨outcome, w⟩ := x
  obtain ⟨outcome', w'⟩ := x'
  obtain rfl : outcome' = outcome := hanswer
  cases outcome' with
  | error e =>
    obtain ⟨path, problem, rfl⟩ := hbound e rfl
    exact .left path problem _
  | ok rs => exact .ok (h.foldl_apply rs hworld)

/-! ### Whole runs -/

/-- Two runs end alike: each with its summary or both with the same modules that failed. -/
structure EndAlike (r r' : Result Tree Summary) : Prop where
  same : Same r.world r'.world
  merged : r'.pipeline.summary.mergedModules = r.pipeline.summary.mergedModules
  written : r'.pipeline.summary.writtenFiles.Perm r.pipeline.summary.writtenFiles
  outcome : (r.outcome = .ok r.pipeline.summary ∧ r'.outcome = .ok r'.pipeline.summary) ∨
    ∃ ps, r.outcome = .error (.modules ps) ∧ r'.outcome = .error (.modules ps)

theorem afterFinalized_alike [Parser] {p p' : Pipeline (StateM Tree)} {v v' : Tree}
    (h : Twins p v p' v') :
    EndAlike (exec afterFinalized p v) (exec afterFinalized p' v') := by
  rw [exec_afterFinalized, exec_afterFinalized, h.modules]
  by_cases hnone : p.moduleProblems = []
  · rw [if_pos hnone, if_pos hnone]
    exact ⟨h.same, h.merged, h.written, .inl ⟨rfl, rfl⟩⟩
  · rw [if_neg hnone, if_neg hnone]
    exact ⟨h.same, h.merged, h.written, .inr ⟨_, rfl, rfl⟩⟩

/-- Behind the gate two runs that know the same end alike, unless the file system fails in one. -/
theorem conclusion_alike [Parser] {p p' : Pipeline (StateM Tree)} {v v' : Tree}
    (h : Twins p v p' v')
    (hfiles : ∀ path problem, (exec conclusion p v).outcome ≠ .error (.fileSystem path problem))
    (hfiles' : ∀ path problem, (exec conclusion p' v').outcome ≠ .error (.fileSystem path problem)) :
    EndAlike (exec conclusion p v) (exec conclusion p' v') := by
  have hpaces := (paces_transform_shuffled.bind paces_finalized_shuffled) p v p' v' h
  have hcut : ∀ (q : Pipeline (StateM Tree)) (w : Tree), exec conclusion q w =
      (exec (transform >>= fun _ => filePhase .finalized (·.finalized)) q w).next
        fun _ => afterFinalized := by
    intro q w
    rw [conclusion_eq_finalized, ← bind_assoc, exec_bind]
  rw [hcut] at hfiles hfiles' ⊢
  rw [hcut]
  generalize exec (transform >>= fun _ => filePhase .finalized (·.finalized)) p v = r
    at hpaces hfiles ⊢
  generalize exec (transform >>= fun _ => filePhase .finalized (·.finalized)) p' v' = r'
    at hpaces hfiles' ⊢
  obtain ⟨outcome, q, w⟩ := r
  obtain ⟨outcome', q', w'⟩ := r'
  dsimp only at hpaces
  cases hpaces with
  | ok htwins => exact afterFinalized_alike htwins
  | error he => cases he
  | left path problem y => exact absurd rfl (hfiles path problem)
  | right path problem x => exact absurd rfl (hfiles' path problem)

/-- Two runs that came to the gate find the same problems or end alike. -/
theorem concluded_settled [Parser] {r r' : Result Tree Unit}
    (h : Alike Textual (fun _ _ => Settled r.pipeline r.world r'.pipeline r'.world) r.outcome
      r'.outcome)
    (hfiles : ∀ path problem, r.concluded.outcome ≠ .error (.fileSystem path problem))
    (hfiles' : ∀ path problem, r'.concluded.outcome ≠ .error (.fileSystem path problem))
    (htexts : ∀ file problem, r.concluded.outcome ≠ .error (.read (.undecodable file problem))) :
    (∃ ps ps', ps'.Perm ps ∧ r.concluded.outcome = .error (.schema ps) ∧
      r'.concluded.outcome = .error (.schema ps')) ∨ EndAlike r.concluded r'.concluded := by
  obtain ⟨outcome, q, v⟩ := r
  obtain ⟨outcome', q', v'⟩ := r'
  dsimp only at h
  cases h with
  | error he =>
    rcases he with ⟨ps, rfl⟩ | ⟨file, problem, rfl⟩
    · exact .inl ⟨ps, ps, .refl ps, rfl, rfl⟩
    · exact absurd rfl (htexts file problem)
  | left path problem y => exact absurd rfl (hfiles path problem)
  | right path problem x => exact absurd rfl (hfiles' path problem)
  | ok hsettled =>
    have hproblems : q'.context.problems.Perm q.context.problems := by
      obtain ⟨c, ps, ps', hperm, hcontext, hcontext'⟩ := hsettled.problems
      rw [hcontext, hcontext']
      exact hperm.append_left c.problems
    by_cases hnone : q.context.problems = []
    · have htwins := hsettled.twins hnone
      refine .inr ?_
      simp only [Result.concluded, htwins.context, hnone, if_true] at hfiles hfiles' ⊢
      cases hdry : q.context.settings.dryRun with
      | true => exact ⟨htwins.same, htwins.merged, htwins.written, .inl ⟨rfl, rfl⟩⟩
      | false =>
        rw [hdry] at hfiles hfiles'
        exact conclusion_alike htwins hfiles hfiles'
    · have hsome : q'.context.problems ≠ [] := fun hnil => hnone (List.nil_perm.mp (hnil ▸ hproblems))
      refine .inl ⟨_, _, hproblems, ?_, ?_⟩
      · simp only [Result.concluded, hnone, if_false]
      · simp only [Result.concluded, hsome, if_false]

/-- With the tables of a configuration in another order a run finds the same problems with a schema,
or it ends alike: it leaves the same files, has written the same files and merged the same modules,
and succeeds or reports the same modules. -/
theorem generate_shuffled [Parser] (config : Configuration) (dry : Bool)
    (p : Pipeline (StateM Tree)) (es : List (String × Toml.Value)) (t : Tree)
    (hload : (Registry.builtIn (StateM Tree)).pipeline config dry = .ok p)
    (hnames : (config.plugins.map (·.1)).Nodup) (hperm : es.Perm config.plugins)
    (hvalid : (exec configure p t).outcome = .ok ()) (ht : t.Sound)
    (hschema : schemaId ∈ config.plugins.map (·.1))
    (hinput : ∀ value, (schemaId, value) ∈ config.plugins → ∀ s,
      schemaSource ⟨schemaId, config.baseDir, value⟩ = .ok s → ∃ k, t.kind s.path = .ok k)
    (htexts : ∀ file problem, answer (generate config dry : StateM Tree _) t ≠
      .error (.read (.undecodable file problem)))
    (hfiles : ∀ path problem, answer (generate config dry : StateM Tree _) t ≠
      .error (.fileSystem path problem))
    (hfiles' : ∀ path problem,
      answer (generate { config with plugins := es } dry : StateM Tree _) t ≠
        .error (.fileSystem path problem)) :
    ∃ p', (Registry.builtIn (StateM Tree)).pipeline { config with plugins := es } dry = .ok p' ∧
      ((∃ ps ps', ps'.Perm ps ∧ (exec phases p t).outcome = .error (.schema ps) ∧
          (exec phases p' t).outcome = .error (.schema ps')) ∨
        (Same (exec phases p t).world (exec phases p' t).world ∧
          (exec phases p' t).pipeline.summary.mergedModules =
            (exec phases p t).pipeline.summary.mergedModules ∧
          (exec phases p' t).pipeline.summary.writtenFiles.Perm
            (exec phases p t).pipeline.summary.writtenFiles ∧
          ((exec phases p t).outcome = .ok (exec phases p t).pipeline.summary ∧
              (exec phases p' t).outcome = .ok (exec phases p' t).pipeline.summary ∨
            ∃ ps, (exec phases p t).outcome = .error (.modules ps) ∧
              (exec phases p' t).outcome = .error (.modules ps)))) := by
  obtain ⟨ls, hls, hload'⟩ := pipeline_perm hload hperm
  refine ⟨_, hload', ?_⟩
  rw [(generate_eq hload t).1, exec_phases] at hfiles htexts
  rw [(generate_eq hload' t).1, exec_phases] at hfiles'
  obtain ⟨hunderway, hids, hcreate⟩ := underway_of_pipeline hload ht
  obtain ⟨hunderway', -, -⟩ := underway_of_pipeline hload' ht
  have houtlined : Outlined t p t { p with plugins := ls } t := by
    refine ⟨⟨hunderway, hunderway', hls, hids ▸ hnames, .refl _⟩, rfl, rfl, rfl, rfl, ?_,
      hids ▸ hschema, fun l hl id hid => mem_ids_of_create hcreate hl hid, ?_, hvalid⟩
    · rw [context_of_create hcreate]
      rfl
    · rw [entries_of_pipeline hload, baseDir_of_create hcreate]
      exact hinput
  have hpaces := paces_untilSecondCheckpoint_shuffled t p t _ t houtlined
  rw [exec_phases, exec_phases]
  refine (concluded_settled hpaces hfiles hfiles' htexts).imp_right fun h => ?_
  exact ⟨h.same, h.merged, h.written, h.outcome⟩

/-- A run with the plugins in reverse order. -/
theorem single_generate_shuffled :
    ∃ s s', answer (generate singleConfig false : StateM Tree _) singleTree = .ok s ∧
      answer (generate { singleConfig with plugins := singleConfig.plugins.reverse } false :
        StateM Tree _) singleTree = .ok s' ∧
      Same (worldAfter (generate singleConfig false : StateM Tree _) singleTree)
        (worldAfter (generate { singleConfig with plugins := singleConfig.plugins.reverse } false :
          StateM Tree _) singleTree) ∧
      s'.mergedModules = s.mergedModules ∧ s'.writtenFiles.Perm s.writtenFiles ∧
      s.mergedModules = [⟨"r/Query.ts"⟩] := by
  have hload : (Registry.builtIn (StateM Tree)).pipeline singleConfig false = .ok singlePipeline :=
    rfl
  have hsound : singleTree.Sound := sound_of_entries rfl (by decide +kernel)
  have hinput : ∀ value, (schemaId, value) ∈ singleConfig.plugins → ∀ s,
      schemaSource ⟨schemaId, singleConfig.baseDir, value⟩ = .ok s →
        ∃ k, singleTree.kind s.path = .ok k := by
    have hsource : schemaSource
        ⟨schemaId, singleConfig.baseDir, .table [("input_path", .string "schema")]⟩ =
          .ok (.create ⟨"schema"⟩ SchemaSource.defaultExtensions) := by decide +kernel
    have hkind : singleTree.kind ⟨"schema"⟩ = .ok .directory := by decide +kernel
    exact input_of_entry (by decide) List.mem_cons_self hsource hkind
  have hrun : answer (generate singleConfig false : StateM Tree _) singleTree =
      .ok ⟨[⟨"r/Query.ts"⟩], [⟨"t/index.ts"⟩, ⟨"t/Query.graphql.ts"⟩, ⟨"t/schema.graphql"⟩]⟩ :=
    eq_ok_of_toOption (by decide +kernel)
  obtain ⟨s', hrun'⟩ := exists_eq_ok (x := answer (generate { singleConfig with
    plugins := singleConfig.plugins.reverse } false : StateM Tree _) singleTree) (by decide +kernel)
  obtain ⟨p', hload', hends⟩ := generate_shuffled singleConfig false singlePipeline
    singleConfig.plugins.reverse singleTree hload (by decide) (List.reverse_perm _)
    (by decide +kernel) hsound (by decide) hinput (by rw [hrun]; nofun) (by rw [hrun]; nofun)
    (by rw [hrun']; nofun)
  obtain ⟨hanswer, hworld⟩ := generate_eq hload singleTree
  obtain ⟨hanswer', hworld'⟩ := generate_eq hload' singleTree
  rw [hanswer] at hrun ⊢
  rw [hanswer'] at hrun' ⊢
  rw [hworld, hworld']
  rcases hends with ⟨ps, ps', -, hfound, -⟩ |
    ⟨hsame, hmerged, hwritten, ⟨hok, hok'⟩ | ⟨ps, hfailed, -⟩⟩
  · cases hrun.symm.trans hfound
  · have hsummary := Except.ok.inj (hok.symm.trans hrun)
    exact ⟨_, _, hok, hok', hsame, hmerged, hwritten, congrArg Summary.mergedModules hsummary⟩
  · cases hrun.symm.trans hfailed

end TypeLoom.Plugins
