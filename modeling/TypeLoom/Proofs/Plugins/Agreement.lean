import TypeLoom.Proofs.Plugins.DryRun

/-!
# A dry run and a run in earnest

Both runs are followed step by step. Main statement: what a dry run finds wrong with a schema the run
in earnest finds as well, and nothing else, unless the file system fails there.
-/

namespace TypeLoom.Plugins

open Files Files.Tree Pipeline Collected Generation
open ResolverModule (Parser)

variable {t : Tree}

/-! ### Two runs of the same plugins -/

theorem context_foldl_earnest {rs rs' : List Report} (h : List.Forall₂ Agrees rs rs')
    {p p' : Pipeline (StateM Tree)} (hcontext : p'.context = p.context.earnest) :
    (rs'.foldl apply p').context = (rs.foldl apply p).context.earnest := by
  have hsame : rs'.flatMap (·.documents) = rs.flatMap (·.documents) ∧
      rs'.flatMap (·.problems) = rs.flatMap (·.problems) := by
    induction h with
    | nil => exact ⟨rfl, rfl⟩
    | cons hr _ ih =>
      exact ⟨congrArg₂ (· ++ ·) hr.documents ih.1, congrArg₂ (· ++ ·) hr.problems ih.2⟩
  rw [context_foldl_apply, context_foldl_apply, hsame.1, hsame.2, hcontext,
    List.foldl_hom Context.earnest fun c d => c.addDocument_earnest d]
  rfl

/-- A dry run that has changed nothing, and a run in earnest of the same plugins that knows the same
of the schema. -/
structure Mirrors [Parser] (t : Tree) (p : Pipeline (StateM Tree)) (v : Tree)
    (p' : Pipeline (StateM Tree)) :
    Prop where
  underway : Underway p v
  dry : p.context.settings.dryRun = true
  still : v = t
  plugins : p'.plugins = p.plugins
  context : p'.context = p.context.earnest

theorem Mirrors.step [Parser] {t v : Tree} {p p' : Pipeline (StateM Tree)}
    {x : Running (StateM Tree) Unit} (h : Mirrors t p v p') (v' : Tree) (hx : Calm x)
    (hplugins : (exec x p' v').pipeline.plugins = (exec x p v).pipeline.plugins)
    (hcontext : (exec x p' v').pipeline.context = (exec x p v).pipeline.context.earnest) :
    Mirrors t (exec x p v).pipeline (exec x p v).world (exec x p' v').pipeline where
  underway := hx.preliminary p v h.underway
  dry := (hx.advancing p v h.underway.appending).context.dryRun.trans h.dry
  still := (hx.still p v h.underway h.dry).trans h.still
  plugins := hplugins
  context := hcontext

/-- Both runs before their plugins are configured, where the input of each table stands. -/
structure Outset [Parser] (t : Tree) (p : Pipeline (StateM Tree)) (v : Tree)
    (p' : Pipeline (StateM Tree)) (v' : Tree) : Prop where
  mirrors : Mirrors t p v p'
  same : v' = t
  baseDir : p'.baseDir = p.baseDir
  none : p.context.settings.schemaInput = none
  inputs : ∀ value, (schemaId, value) ∈ entries p.plugins → ∀ s,
    schemaSource ⟨schemaId, p.baseDir, value⟩ = .ok s → ∃ k, t.kind s.path = .ok k

/-- Both runs once their plugins are configured. -/
structure Ready [Parser] (t : Tree) (p : Pipeline (StateM Tree)) (v : Tree)
    (p' : Pipeline (StateM Tree)) (v' : Tree) : Prop where
  mirrors : Mirrors t p v p'
  furnished : v'.Sound ∧ Furnished t v'
  inputs : ∀ l ∈ p.plugins, l.plugin.id = schemaId → ∃ s, l.phases = schemaPhases (some s) ∧
    ∃ k, t.kind s.path = .ok k
  stands : InputStands p.context t

/-- Both runs once the schema is loaded. -/
structure Abreast [Parser] (t : Tree) (p : Pipeline (StateM Tree)) (v : Tree)
    (p' : Pipeline (StateM Tree)) (v' : Tree) : Prop where
  mirrors : Mirrors t p v p'
  later : v'.Sound ∧ Later t v'
  stands : InputStands p.context t

theorem configure_earnest [Parser] {l : LoadedPlugin (StateM Tree)} (h : BuiltIn l) (s : Table)
    (c : Context) :
    ∃ r : Except Failure (Phases (StateM Tree)) × Context, l.plugin.configure s c = pure r ∧
      l.plugin.configure s c.earnest = pure (r.1, r.2.earnest) := by
  cases h with
  | schema value source =>
    refine ⟨_, rfl, ?_⟩
    dsimp only [schemaPlugin]
    cases schemaSource s <;> rfl
  | declarations value output =>
    refine ⟨_, rfl, ?_⟩
    dsimp only [declarationsPlugin]
    cases readOutput "TypeScriptPluginConfig" s <;> rfl
  | resolvers value output =>
    refine ⟨_, rfl, ?_⟩
    dsimp only [resolversPlugin]
    cases readOutput "ResolverPluginConfig" s <;> rfl
  | requestContext value =>
    refine ⟨_, rfl, ?_⟩
    dsimp only [requestContextPlugin]
    cases readContextImport s <;> rfl

theorem configureAll_earnest [Parser] (baseDir : Path) {ls : List (LoadedPlugin (StateM Tree))}
    (hls : ∀ l ∈ ls, BuiltIn l) (c : Context) :
    ∃ r, (configureAll baseDir ls c : StateM Tree _) = pure r ∧
      configureAll baseDir ls c.earnest = (pure (r.1, r.2.1, r.2.2.earnest) : StateM Tree _) := by
  induction ls generalizing c with
  | nil => exact ⟨_, rfl, rfl⟩
  | cons l ls ih =>
    obtain ⟨hl, hrest⟩ := List.forall_mem_cons.mp hls
    obtain ⟨⟨outcome, c'⟩, hx, hx'⟩ := configure_earnest hl ⟨l.plugin.id, baseDir, l.value⟩ c
    rw [configureAll, configureAll, if_pos hl.has_configure, if_pos hl.has_configure, hx, hx',
      pure_bind, pure_bind]
    cases outcome with
    | error e => exact ⟨_, rfl, rfl⟩
    | ok f =>
      obtain ⟨r, hr, hr'⟩ := ih hrest c'
      dsimp only
      rw [hr, hr', pure_bind, pure_bind]
      exact ⟨_, rfl, rfl⟩

/-- Where the input of each table stands, configured plugins load from it. -/
theorem Configured.grounded {baseDir : Path} {ls : List (LoadedPlugin (StateM Tree))} {c : Context}
    (h : Configured baseDir none ls c)
    (hinputs : ∀ value, (schemaId, value) ∈ entries ls → ∀ s,
      schemaSource ⟨schemaId, baseDir, value⟩ = .ok s → ∃ k, t.kind s.path = .ok k) :
    (∀ l ∈ ls, l.plugin.id = schemaId → ∃ s, l.phases = schemaPhases (some s) ∧
      ∃ k, t.kind s.path = .ok k) ∧ InputStands c t := by
  have hkind : ∀ l ∈ ls, l.plugin.id = schemaId → ∀ s,
      schemaSource ⟨schemaId, baseDir, l.value⟩ = .ok s → ∃ k, t.kind s.path = .ok k := by
    intro l hl hid
    refine hinputs l.value ?_
    rw [← hid]
    exact List.mem_map_of_mem hl
  refine ⟨fun l hl hid => ?_, fun path hpath => ?_⟩
  · obtain ⟨s, hs, hphases⟩ := h.sources l hl hid
    exact ⟨s, hphases, hkind l hl hid s hs⟩
  · obtain ⟨l, hl, hid, s, hs, -, rfl⟩ := (h.input path hpath).resolve_left nofun
    obtain ⟨k, hk⟩ := hkind l hl hid s hs
    exact kind_cases hk

theorem paces_configure [Parser] : Paces (fun _ => True) (Outset t) (Ready t) configure := by
  intro p v p' v' h
  obtain ⟨r, hr, hr'⟩ := configureAll_earnest p.baseDir h.mirrors.underway.builtIn p.context
  obtain ⟨r', hr'', hentries, -, hconfigured⟩ :=
    configureAll_eq p.baseDir h.mirrors.underway.builtIn p.context
  obtain rfl : r' = r := congrArg (answer · t) (hr''.symm.trans hr)
  have hx : exec configure p v = ⟨r'.1, { p with plugins := r'.2.1, context := r'.2.2 }, v⟩ := by
    rw [exec_configure, hr]
    rfl
  have hx' : exec configure p' v' =
      ⟨r'.1, { p' with plugins := r'.2.1, context := r'.2.2.earnest }, v'⟩ := by
    rw [exec_configure, h.baseDir, h.mirrors.plugins, h.mirrors.context, hr']
    rfl
  have hmirrors := h.mirrors.step v' calm_configure (by rw [hx, hx']) (by rw [hx, hx'])
  rw [hx, hx'] at hmirrors ⊢
  rcases houtcome : r'.1 with e | _
  · exact .error trivial
  · have hsources := hconfigured houtcome
    rw [h.none] at hsources
    obtain ⟨hinputs, hstands⟩ := hsources.grounded (hentries.symm ▸ h.inputs)
    refine .ok ⟨hmirrors, ?_, hinputs, hstands⟩
    rw [h.same]
    exact ⟨h.mirrors.still ▸ h.mirrors.underway.sound, .refl t⟩

/-- A phase that works on files, in both runs. -/
theorem filePhase_alike [Parser] {p p' : Pipeline (StateM Tree)} {v v' : Tree} {S : Tree → Prop}
    {phase : Phase} {act : Phases (StateM Tree) → Context → Action (StateM Tree) Report}
    (h : Mirrors t p v p') (hcalm : Calm (filePhase phase act))
    (hact : ∀ l ∈ p.participants phase, ∀ v', S v' →
      worldAfter (act l.phases p.context).run t = t ∧
        Reports S (act l.phases p.context) (act l.phases p.context.earnest) t v')
    (hS : S v') :
    Alike (fun _ => True) (fun _ _ => Mirrors t (exec (filePhase phase act) p v).pipeline
        (exec (filePhase phase act) p v).world (exec (filePhase phase act) p' v').pipeline ∧
        (exec (filePhase phase act) p v).pipeline.context.settings = p.context.settings ∧
        S (exec (filePhase phase act) p' v').world)
      (exec (filePhase phase act) p v).outcome (exec (filePhase phase act) p' v').outcome := by
  have hparticipants : p'.participants phase = p.participants phase := by
    rw [participants, participants, h.plugins]
  have hgather := gather_alike hact hS
  have hmirrors := h.step v' hcalm
  obtain rfl := h.still
  rw [exec_filePhase, exec_filePhase, hparticipants, h.context] at hmirrors ⊢
  generalize gather (fun l => act l.phases p.context) (p.participants phase) v = x
    at hgather hmirrors ⊢
  generalize gather (fun l => act l.phases p.context.earnest) (p.participants phase) v' = y
    at hgather hmirrors ⊢
  obtain ⟨x, w⟩ := x
  obtain ⟨y, w'⟩ := y
  dsimp only at hgather
  cases hgather with
  | ok hrs =>
    refine .ok ⟨hmirrors ?_ ?_, settings_foldl_apply _ p, hrs.2⟩
    · rw [plugins_foldl_apply, plugins_foldl_apply, h.plugins]
    · exact context_foldl_earnest hrs.1 h.context
  | error e => exact .error trivial
  | left path problem y => exact .left path problem _
  | right path problem x => exact .right path problem _

theorem paces_initial [Parser] :
    Paces (fun _ => True) (Ready t) (Abreast t) (filePhase .initial (·.initial)) := by
  intro p v p' v' h
  have hs : t.Sound := h.mirrors.still ▸ h.mirrors.underway.sound
  refine (filePhase_alike (S := fun v => v.Sound ∧ Furnished t v) h.mirrors calm_initial
    (fun l hl v' hv' => ?_) h.furnished).imp (fun _ h => h)
      fun _ _ ⟨hmirrors, hsettings, hsound, hfurnished⟩ =>
        ⟨hmirrors, ⟨hsound, hfurnished.later⟩, fun path hpath => h.stands path (hsettings ▸ hpath)⟩
  have hmem := List.mem_of_mem_filter hl
  have hbuiltIn := h.mirrors.underway.builtIn l hmem
  exact ⟨hbuiltIn.still_initial h.mirrors.dry t,
    hbuiltIn.reports_initial h.mirrors.dry hs (h.inputs l hmem) hv'⟩

theorem paces_collected [Parser] :
    Paces (fun _ => True) (Abreast t) (Abreast t) (filePhase .collected (·.collected)) := by
  intro p v p' v' h
  refine (filePhase_alike (S := fun v => v.Sound ∧ Later t v) h.mirrors calm_collected
    (fun l hl v' hv' => ?_) h.later).imp (fun _ h => h) fun _ _ ⟨hmirrors, hsettings, hlater⟩ =>
      ⟨hmirrors, hlater, fun path hpath => h.stands path (hsettings ▸ hpath)⟩
  have hbuiltIn := h.mirrors.underway.builtIn l (List.mem_of_mem_filter hl)
  exact ⟨hbuiltIn.still_collected h.mirrors.dry t,
    hbuiltIn.reports_collected h.mirrors.dry h.stands hv'⟩

theorem walk_earnest {vs : List (Visitor (StateM Tree))}
    (hvs : ∀ v ∈ vs, v = collector (StateM Tree)) (d : Schema.Document) (c : Context) :
    ∃ c', walk vs d c = pure c' ∧ walk vs d c.earnest = pure c'.earnest := by
  have hvisit : ∀ x ∈ d.definitions.zipIdx, ∀ c, ∃ c',
      vs.foldlM (fun c v => v.visit x.2 x.1 c) c = (pure c' : StateM Tree _) ∧
        vs.foldlM (fun c v => v.visit x.2 x.1 c) c.earnest = (pure c'.earnest : StateM Tree _) :=
    fun x _ => foldlM_hom fun v hv c => ⟨c.collect x.2 x.1, by rw [hvs v hv]; rfl, by
      rw [hvs v hv, ← c.collect_earnest]; rfl⟩
  have hfinish : ∀ v ∈ vs, ∀ c, ∃ c', v.finish c = (pure c' : StateM Tree _) ∧
      v.finish c.earnest = (pure c'.earnest : StateM Tree _) :=
    fun v hv c => ⟨c.resolveOperations, by rw [hvs v hv]; rfl, by rw [hvs v hv]; rfl⟩
  obtain ⟨c', hc', hearnest'⟩ := foldlM_hom hvisit c
  obtain ⟨c'', hc'', hearnest''⟩ := foldlM_hom hfinish c'
  refine ⟨c'', ?_, ?_⟩
  · rw [walk, hc', pure_bind, hc'']
  · rw [walk, hearnest', pure_bind, hearnest'']

theorem checked_earnest {rules : List Rule} (hrules : ∀ rule ∈ rules, rule = extensionRule)
    (c : Context) : checked rules c.earnest = (checked rules c).earnest := by
  have hfold : rules.foldl (fun c rule => c.addProblems (rule.check c)) c.earnest =
      (rules.foldl (fun c rule => c.addProblems (rule.check c)) c).earnest := by
    induction rules generalizing c with
    | nil => rfl
    | cons rule rules ih =>
      obtain ⟨rfl, hrest⟩ := List.forall_mem_cons.mp hrules
      exact ih hrest (c.addProblems (extensionRule.check c))
  rw [checked, hfold, Context.validate_earnest, checked]

theorem collecting_earnest [Parser] {p p' : Pipeline (StateM Tree)} (h : ∀ l ∈ p.plugins, BuiltIn l)
    (hplugins : p'.plugins = p.plugins) (hcontext : p'.context = p.context.earnest)
    (d : Schema.Document) :
    ∃ c, collecting p d = pure c ∧ collecting p' d = pure c.earnest := by
  have hmem : ∀ phase, ∀ l ∈ p.participants phase, BuiltIn l :=
    fun _ l hl => h l (List.mem_of_mem_filter hl)
  have hparticipants : ∀ phase, p'.participants phase = p.participants phase := fun phase => by
    rw [participants, participants, hplugins]
  obtain ⟨visitors, hvisitors, hcollector⟩ := mapM_eq_pure (W := Tree)
    fun l hl => (hmem .collect l hl).collect_eq
  obtain ⟨rules, hrules, hextension⟩ := mapM_eq_pure (W := Tree)
    fun l hl => (hmem .validate l hl).validators_eq
  obtain ⟨c, hc, hearnest⟩ := walk_earnest
    (fun v hv => hcollector _ (List.reduceOption_mem_iff.1 hv) v rfl) d p.context
  refine ⟨checked rules.flatten c, ?_, ?_⟩
  · rw [collecting, hvisitors, pure_bind, hrules, pure_bind, hc, pure_bind]
  · rw [collecting, hparticipants, hparticipants, hcontext, hvisitors, pure_bind, hrules, pure_bind,
      hearnest, pure_bind, checked_earnest]
    intro rule hrule
    obtain ⟨rs, hrs, hmem⟩ := List.mem_flatten.mp hrule
    exact hextension rs hrs rule hmem

theorem paces_collectAndValidate [Parser] :
    Paces (fun _ => True) (Abreast t) (Abreast t) collectAndValidate := by
  intro p v p' v' h
  have hmirrors := h.mirrors.step v' calm_collectAndValidate
  rw [exec_collectAndValidate, exec_collectAndValidate, h.mirrors.context, p.context.document_earnest]
    at hmirrors ⊢
  cases hd : p.context.document with
  | none => exact .error trivial
  | some d =>
    rw [hd] at hmirrors
    obtain ⟨c, hc, hc'⟩ :=
      collecting_earnest h.mirrors.underway.builtIn h.mirrors.plugins h.mirrors.context d
    obtain ⟨c', hc'', hretains⟩ := collecting_eq h.mirrors.underway.builtIn d
    obtain rfl : c' = c := congrArg (answer · t) (hc''.symm.trans hc)
    dsimp only at hmirrors ⊢
    rw [hc, hc'] at hmirrors ⊢
    exact .ok ⟨hmirrors h.mirrors.plugins rfl, h.later,
      fun path hpath => h.stands path (hretains.settings ▸ hpath)⟩

theorem paces_untilSecondCheckpoint [Parser] :
    Paces (fun _ => True) (Outset t) (Abreast t) untilSecondCheckpoint :=
  (paces_configure.bind (paces_initial.bind paces_collectAndValidate)).bind
    ((paces_checkpoint (fun _ => trivial) fun _ _ _ _ h => by
      rw [h.mirrors.context, Context.problems_earnest]).bind
      paces_collected)

/-! ### Behind the gate -/

/-- A step behind the gate, where nothing is found wrong with a schema. -/
def Blameless [Parser] (x : Running (StateM Tree) α) : Prop :=
  ∀ p t, (∀ l ∈ p.plugins, BuiltIn l) →
    (exec x p t).pipeline.plugins = p.plugins ∧ ∀ ps, (exec x p t).outcome ≠ .error (.schema ps)

theorem Blameless.bind [Parser] {x : Running (StateM Tree) α} {f : α → Running (StateM Tree) β}
    (hx : Blameless x) (hf : ∀ a, Blameless (f a)) : Blameless (x >>= f) := by
  intro p t h
  obtain ⟨hplugins, houtcome⟩ := hx p t h
  rw [exec_bind]
  generalize exec x p t = r at hplugins houtcome ⊢
  obtain ⟨outcome, q, v⟩ := r
  cases outcome with
  | error e => exact ⟨hplugins, fun ps hps => houtcome ps (by cases hps; rfl)⟩
  | ok a =>
    dsimp only at hplugins
    obtain ⟨hsecond, hend⟩ := hf a q v (hplugins.symm ▸ h)
    exact ⟨hsecond.trans hplugins, hend⟩

theorem blameless_pure [Parser] (a : α) : Blameless (pure a : Running (StateM Tree) α) :=
  fun _ _ _ => ⟨rfl, nofun⟩

/-- An action that finds nothing wrong with a schema. -/
def Unblaming (x : Action (StateM Tree) α) : Prop := ∀ t ps, answer x.run t ≠ .error (.schema ps)

theorem FileBound.unblaming {x : Action (StateM Tree) α} (hx : FileBound x) : Unblaming x := by
  intro t ps h
  obtain ⟨p, problem, he⟩ := hx t _ h
  cases he

theorem unblaming_pure (a : α) : Unblaming (pure a) := (fileBound_pure a).unblaming

theorem unblaming_declarationPaths (plugin : String) (c : Context)
    {f : OutputPaths → Action (StateM Tree) Report} (hf : ∀ paths, Unblaming (f paths)) :
    Unblaming (declarationPaths plugin c >>= f) := by
  intro t ps h
  rw [answer_run_bind, declarationPaths, answer_outputPaths, worldAfter_outputPaths] at h
  cases hpaths : c.settings.outputPaths? (inputIsFile c t) with
  | none =>
    rw [hpaths] at h
    cases h
  | some paths =>
    rw [hpaths] at h
    exact hf paths t ps h

namespace BuiltIn

variable {l : LoadedPlugin (StateM Tree)}

theorem unblaming_transform [Parser] (h : BuiltIn l) (c : Context) :
    Unblaming (l.phases.transform c) := by
  cases h with
  | schema value source => exact unblaming_pure _
  | declarations value output => exact unblaming_pure _
  | resolvers value output =>
    refine unblaming_declarationPaths resolversId c fun paths t ps hps => ?_
    rw [(answer_run_foldlM_lift addUpdate _ _ t).1] at hps
    cases hps
  | requestContext value => exact unblaming_pure _

theorem unblaming_finalized [Parser] (h : BuiltIn l) (c : Context) :
    Unblaming (l.phases.finalized c) := by
  cases h with
  | schema value source => exact unblaming_pure _
  | declarations value output =>
    show Unblaming (writeSnapshot c)
    unfold writeSnapshot
    cases c.document with
    | none => exact unblaming_pure _
    | some d => exact unblaming_declarationPaths _ c fun _ => (fileBound_writeFiles _).unblaming
  | resolvers value output => exact unblaming_pure _
  | requestContext value => exact unblaming_pure _

end BuiltIn

theorem blameless_transform [Parser] : Blameless transform := by
  have heach : ∀ ls : List (LoadedPlugin (StateM Tree)), (∀ l ∈ ls, BuiltIn l) →
      Blameless (ls.forM transformBy) := by
    intro ls hls
    induction ls with
    | nil => exact blameless_pure _
    | cons l ls ih =>
      obtain ⟨hl, hrest⟩ := List.forall_mem_cons.mp hls
      refine Blameless.bind (fun p t _ => ?_) fun _ => ih hrest
      rw [exec_transformBy]
      have hact := hl.unblaming_transform p.context t
      cases ha : answer (l.phases.transform p.context).run t with
      | error e => exact ⟨rfl, fun ps hps => hact ps (ha.trans (by cases hps; rfl))⟩
      | ok r => exact ⟨rfl, nofun⟩
  intro p t h
  rw [exec_transform]
  exact heach _ (fun l hl => h l (List.mem_of_mem_filter hl)) p t h

theorem blameless_finalized [Parser] : Blameless (filePhase .finalized (·.finalized)) := by
  intro p t h
  have houtcome : ∀ ps,
      (gather (fun l => l.phases.finalized p.context) (p.participants .finalized) t).1 ≠
        .error (.schema ps) := by
    intro ps hps
    obtain ⟨l, hl, u, ha⟩ := exists_of_gather_error hps
    exact (h l (List.mem_of_mem_filter hl)).unblaming_finalized p.context u ps ha
  rw [exec_filePhase]
  generalize gather (fun l => l.phases.finalized p.context) (p.participants .finalized) t = asked
    at houtcome ⊢
  obtain ⟨e | rs, v⟩ := asked
  · exact ⟨rfl, fun ps hps => houtcome ps (by cases hps; rfl)⟩
  · exact ⟨plugins_foldl_apply rs p, nofun⟩

theorem blameless_moduleCheckpoint [Parser] : Blameless moduleCheckpoint := by
  intro p t h
  rw [exec_moduleCheckpoint]
  split <;> exact ⟨rfl, nofun⟩

theorem blameless_conclusion [Parser] : Blameless conclusion :=
  (blameless_transform.bind fun _ => blameless_finalized.bind fun _ =>
    blameless_moduleCheckpoint).bind fun _ => fun _ _ _ => ⟨rfl, nofun⟩

/-! ### Whole runs -/

/-- Two runs that came to the gate abreast end alike, as far as a schema goes. -/
theorem concluded_abreast [Parser] {r r' : Result Tree Unit}
    (h : Alike (fun _ => True) (fun _ _ => Abreast t r.pipeline r.world r'.pipeline r'.world)
      r.outcome r'.outcome) :
    (∀ ps, r.shut = .error (.schema ps) → r'.concluded.outcome = .error (.schema ps) ∨
        ∃ path problem, r'.concluded.outcome = .error (.fileSystem path problem)) ∧
      ∀ s, r.shut = .ok s → ∀ ps, r'.concluded.outcome ≠ .error (.schema ps) := by
  obtain ⟨outcome, q, v⟩ := r
  obtain ⟨outcome', q', v'⟩ := r'
  cases h with
  | error e => exact ⟨fun ps hps => .inl hps, fun s hs => by cases hs⟩
  | left path problem => exact ⟨fun ps hps => (by cases hps), fun s hs => by cases hs⟩
  | right path problem =>
    refine ⟨fun _ _ => .inr ⟨path, problem, rfl⟩, fun s _ ps hps => ?_⟩
    cases hps
  | ok hJ =>
    have hproblems : q'.context.problems = q.context.problems := by
      rw [hJ.mirrors.context, Context.problems_earnest]
    have hdry : q'.context.settings.dryRun = false := by
      rw [hJ.mirrors.context, Context.dryRun_earnest]
    by_cases hnone : q.context.problems = []
    · refine ⟨fun ps hps => ?_, fun s _ ps hps => ?_⟩
      · simp only [Result.shut, hnone, if_true, reduceCtorEq] at hps
      · have hbuiltIn : ∀ l ∈ q'.plugins, BuiltIn l :=
          hJ.mirrors.plugins.symm ▸ hJ.mirrors.underway.builtIn
        simp only [Result.concluded, hproblems, hnone, hdry, if_true, Bool.false_eq_true, if_false]
          at hps
        exact (blameless_conclusion q' v' hbuiltIn).2 ps hps
    · simp only [Result.shut, Result.concluded, hproblems, hnone, if_false]
      exact ⟨fun ps hps => .inl hps, fun s hs => by cases hs⟩

theorem pipeline_earnest [Parser] (config : Configuration) :
    (Registry.builtIn (StateM Tree)).pipeline config false =
      ((Registry.builtIn (StateM Tree)).pipeline config true).map fun p =>
        { p with context := p.context.earnest } := by
  show (config.plugins.mapM loadEntry >>= create config.baseDir false) =
    (config.plugins.mapM loadEntry >>= create config.baseDir true).map _
  cases config.plugins.mapM loadEntry with
  | error e => rfl
  | ok ls =>
    show create config.baseDir false ls = (create config.baseDir true ls).map _
    unfold create
    cases ls.findSome? (missingRequirement? ls) <;> rfl

/-- A dry run finds the problems of a schema that the run in earnest finds, unless the file system
fails there; where a dry run succeeds, the run in earnest finds no problems of a schema; and a dry
run changes nothing. -/
theorem dry_run_agrees [Parser] (config : Configuration) (t : Tree) (ht : t.Sound)
    (hinput : ∀ value, (schemaId, value) ∈ config.plugins → ∀ s,
      schemaSource ⟨schemaId, config.baseDir, value⟩ = .ok s → ∃ k, t.kind s.path = .ok k) :
    (∀ ps, answer (generate config true : StateM Tree _) t = .error (.schema ps) →
      answer (generate config false : StateM Tree _) t = .error (.schema ps) ∨
        ∃ path problem,
          answer (generate config false : StateM Tree _) t = .error (.fileSystem path problem)) ∧
      (∀ s, answer (generate config true : StateM Tree _) t = .ok s →
        ∀ ps, answer (generate config false : StateM Tree _) t ≠ .error (.schema ps)) ∧
      worldAfter (generate config true : StateM Tree _) t = t := by
  have hearnest := pipeline_earnest config
  cases hload : (Registry.builtIn (StateM Tree)).pipeline config true with
  | error e =>
    rw [hload] at hearnest
    have hanswer : ∀ dry, (Registry.builtIn (StateM Tree)).pipeline config dry = .error e →
        (generate config dry : StateM Tree _) = pure (.error e) := by
      intro dry h
      rw [generate, h]
    rw [hanswer true hload, hanswer false hearnest]
    exact ⟨fun ps hps => .inl hps, nofun, rfl⟩
  | ok p =>
    rw [hload] at hearnest
    obtain ⟨hunderway, -, hcreate⟩ := underway_of_pipeline hload ht
    obtain ⟨-, hdry, -⟩ := create_eq_ok hcreate
    have hexec := exec_phases_dry hunderway hdry
    have houtset : Outset t p t { p with context := p.context.earnest } t := by
      refine ⟨⟨hunderway, hdry, rfl, rfl, rfl⟩, rfl, rfl, ?_, ?_⟩
      · rw [context_of_create hcreate]
        rfl
      · rw [entries_of_pipeline hload, baseDir_of_create hcreate]
        exact hinput
    obtain ⟨hproblems, hnone⟩ := concluded_abreast (paces_untilSecondCheckpoint p t _ t houtset)
    rw [← exec_phases] at hproblems hnone
    rw [(generate_eq hload t).1, (generate_eq hload t).2, (generate_eq hearnest t).1, hexec]
    exact ⟨hproblems, hnone, rfl⟩

/-- Where the input of the one table for a schema stands, the input of each such table does. -/
theorem input_of_entry {config : Configuration} (hnames : (config.plugins.map (·.1)).Nodup)
    {value : Toml.Value} (hmem : (schemaId, value) ∈ config.plugins) {source : SchemaSource}
    (hsource : schemaSource ⟨schemaId, config.baseDir, value⟩ = .ok source) {k : Files.Kind}
    (hk : t.kind source.path = .ok k) :
    ∀ value, (schemaId, value) ∈ config.plugins → ∀ s,
      schemaSource ⟨schemaId, config.baseDir, value⟩ = .ok s → ∃ k, t.kind s.path = .ok k := by
  intro other hother s hs
  have hlookup := (lookup_of_nodup hnames hother).symm.trans (lookup_of_nodup hnames hmem)
  rw [Option.some.inj hlookup, hsource] at hs
  exact ⟨k, Except.ok.inj hs ▸ hk⟩

/-- A schema that extends a type that there is not. -/
def groundlessTree : Tree :=
  ⟨["p"], [(["p"], .directory), (["p", "schema"], .directory),
    (["p", "schema", "Query.graphql"],
      .file (Text.Utf8.encode "extend type Query \x7b a: Int \x7d".toList))]⟩

/-- A configuration whose first plugin prepares a directory before the schema is loaded. -/
def groundlessConfig : Configuration :=
  ⟨⟨""⟩, [(declarationsId, .table [("output_path", .string "types")]),
    (schemaId, .table [("input_path", .string "schema")])]⟩

theorem groundless_dry_run_agrees :
    ∃ problem,
      answer (generate groundlessConfig true : StateM Tree _) groundlessTree =
        .error (.schema [problem]) ∧
      answer (generate groundlessConfig false : StateM Tree _) groundlessTree =
        .error (.schema [problem]) ∧
      worldAfter (generate groundlessConfig true : StateM Tree _) groundlessTree = groundlessTree ∧
      (worldAfter (generate groundlessConfig false : StateM Tree _) groundlessTree).kind ⟨"types"⟩ =
        .ok .directory := by
  have hsound : groundlessTree.Sound := sound_of_entries rfl (by decide +kernel)
  have hinput : ∀ value, (schemaId, value) ∈ groundlessConfig.plugins → ∀ s,
      schemaSource ⟨schemaId, groundlessConfig.baseDir, value⟩ = .ok s →
        ∃ k, groundlessTree.kind s.path = .ok k := by
    have hsource : schemaSource
        ⟨schemaId, groundlessConfig.baseDir, .table [("input_path", .string "schema")]⟩ =
          .ok (.create ⟨"schema"⟩ SchemaSource.defaultExtensions) := by decide +kernel
    have hkind : groundlessTree.kind ⟨"schema"⟩ = .ok .directory := by decide +kernel
    exact input_of_entry (by decide) (List.mem_cons_of_mem _ List.mem_cons_self) hsource hkind
  have hfound : answer (generate groundlessConfig true : StateM Tree _) groundlessTree =
      .error (.schema [.extensionOfUndefinedType "Query" ⟨⟨"schema/Query.graphql"⟩, ⟨1, 8⟩⟩]) := by
    decide +kernel
  have hworks : ∀ path problem,
      answer (generate groundlessConfig false : StateM Tree _) groundlessTree ≠
        .error (.fileSystem path problem) := by
    intro path problem h
    have hkind : (match answer (generate groundlessConfig false : StateM Tree _) groundlessTree with
        | .error (.fileSystem _ _) => false
        | _ => true) = true := by decide +kernel
    rw [h] at hkind
    cases hkind
  obtain ⟨hproblems, -, hworld⟩ := dry_run_agrees groundlessConfig groundlessTree hsound hinput
  refine ⟨_, hfound, (hproblems _ hfound).resolve_right ?_, hworld, by decide +kernel⟩
  rintro ⟨path, problem, hfailed⟩
  exact hworks path problem hfailed

end TypeLoom.Plugins
