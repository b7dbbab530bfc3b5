import Mathlib.Data.List.Nodup
import TypeLoom.Proofs.Collection.Partition
import TypeLoom.Proofs.Pipeline.Account
import TypeLoom.Proofs.Plugins.Soundness

/-!
# Runs of the generator's own plugins

Main statements: a configuration is loaded to the plugins that it names, each of which stays what it
is while it is configured and run. Up to the second checkpoint of a run they keep the tree sound and
say nothing of modules.
-/

namespace TypeLoom.Plugins

open Files Files.Tree Pipeline Collected
open ResolverModule (Parser)

variable {α β : Type}

/-- A plugin of the generator, before or after it was configured. -/
inductive BuiltIn [Parser] : LoadedPlugin (StateM Tree) → Prop
  | schema (value : Toml.Value) (source : Option SchemaSource) :
      BuiltIn ⟨schemaPlugin _, value, schemaPhases source⟩
  | declarations (value : Toml.Value) (output : Option Output) :
      BuiltIn ⟨declarationsPlugin _, value, declarationPhases output⟩
  | resolvers (value : Toml.Value) (output : Option Output) :
      BuiltIn ⟨resolversPlugin _, value, resolverPhases output⟩
  | requestContext (value : Toml.Value) : BuiltIn ⟨requestContextPlugin _, value, .idle _⟩

namespace BuiltIn

variable {l : LoadedPlugin (StateM Tree)}

/-- Configuring a plugin does not depend on files, changes nothing but settings and gives it phases of
its own kind. The plugin that loads the schema does so from the source that its table names, and it
alone says what the input is. -/
theorem configure_eq [Parser] (h : BuiltIn l) (s : Table) (c : Context) :
    ∃ r : Except Failure (Phases (StateM Tree)) × Context, l.plugin.configure s c = pure r ∧
      c.Appended r.2 ∧ r.2.document = c.document ∧ ∀ f, r.1 = .ok f →
        BuiltIn { l with phases := f } ∧
          ((l.plugin.id ≠ schemaId ∧ r.2.settings.schemaInput = c.settings.schemaInput) ∨
            (l.plugin.id = schemaId ∧ ∃ source, schemaSource s = .ok source ∧
              f = schemaPhases (some source) ∧ r.2.settings.schemaInput = some source.path)) := by
  cases h with
  | schema value source =>
    refine ⟨_, rfl, ?_⟩
    cases schemaSource s with
    | error e => exact ⟨.refl, rfl, nofun⟩
    | ok x =>
      refine ⟨.settings _ rfl .refl, rfl, fun f hf => ?_⟩
      obtain rfl := Except.ok.inj hf
      exact ⟨.schema value (some x), .inr ⟨rfl, x, rfl, rfl, rfl⟩⟩
  | declarations value output =>
    refine ⟨_, rfl, ?_⟩
    cases readOutput "TypeScriptPluginConfig" s with
    | error e => exact ⟨.refl, rfl, nofun⟩
    | ok o =>
      refine ⟨.settings _ rfl .refl, rfl, fun f hf => ?_⟩
      obtain rfl := Except.ok.inj hf
      exact ⟨.declarations value (some o), .inl ⟨(by decide : declarationsId ≠ schemaId), rfl⟩⟩
  | resolvers value output =>
    refine ⟨_, rfl, ?_⟩
    cases readOutput "ResolverPluginConfig" s with
    | error e => exact ⟨.refl, rfl, nofun⟩
    | ok o =>
      refine ⟨.settings _ rfl .refl, rfl, fun f hf => ?_⟩
      obtain rfl := Except.ok.inj hf
      exact ⟨.resolvers value (some o), .inl ⟨(by decide : resolversId ≠ schemaId), rfl⟩⟩
  | requestContext value =>
    refine ⟨_, rfl, ?_⟩
    cases readContextImport s with
    | error e => exact ⟨.refl, rfl, nofun⟩
    | ok i =>
      refine ⟨.settings _ rfl .refl, rfl, fun f hf => ?_⟩
      obtain rfl := Except.ok.inj hf
      exact ⟨.requestContext value, .inl ⟨(by decide : requestContextId ≠ schemaId), rfl⟩⟩

theorem configure [Parser] (h : BuiltIn l) (s : Table) (c : Context) (t : Tree) :
    worldAfter (l.plugin.configure s c) t = t ∧
      c.Appended (answer (l.plugin.configure s c) t).2 ∧
      ∀ f, (answer (l.plugin.configure s c) t).1 = .ok f → BuiltIn { l with phases := f } := by
  obtain ⟨r, hr, happended, -, hconfigured⟩ := h.configure_eq s c
  rw [hr]
  exact ⟨rfl, happended, fun f hf => (hconfigured f hf).1⟩

/-- A plugin collects with the one collector there is, if at all. -/
theorem collect_eq [Parser] (h : BuiltIn l) :
    ∃ o, l.phases.collect = pure o ∧ ∀ v, o = some v → v = collector (StateM Tree) := by
  cases h with
  | declarations value output => exact ⟨_, rfl, fun v hv => (Option.some.inj hv).symm⟩
  | schema value source => exact ⟨none, rfl, nofun⟩
  | resolvers value output => exact ⟨none, rfl, nofun⟩
  | requestContext value => exact ⟨none, rfl, nofun⟩

/-- A plugin checks by the one rule there is, if at all. -/
theorem validators_eq [Parser] (h : BuiltIn l) :
    ∃ rules, l.phases.validators = pure rules ∧ ∀ rule ∈ rules, rule = extensionRule := by
  cases h with
  | schema value source => exact ⟨_, rfl, fun rule hrule => List.mem_singleton.1 hrule⟩
  | declarations value output => exact ⟨[], rfl, nofun⟩
  | resolvers value output => exact ⟨[], rfl, nofun⟩
  | requestContext value => exact ⟨[], rfl, nofun⟩

theorem appendingPhases [Parser] (h : BuiltIn l) : AppendingPhases l.phases := by
  obtain ⟨o, ho, hcollector⟩ := h.collect_eq
  intro t v hv
  rw [ho] at hv
  rw [hcollector v hv]
  exact appendingVisitor_collector

theorem appendingPlugin [Parser] (h : BuiltIn l) : AppendingPlugin l.plugin where
  configure s c t := (h.configure s c t).2.1
  configured s c t f hf := ((h.configure s c t).2.2 f hf).appendingPhases

theorem mild_initial [Parser] (h : BuiltIn l) (c : Context) : Mild (l.phases.initial c) := by
  cases h with
  | schema value source => exact mild_loadReport source
  | declarations value output => exact mild_prepare output c
  | resolvers value output => exact mild_prepare output c
  | requestContext value => exact mild_pure ⟨rfl, rfl⟩

theorem mild_collected [Parser] (h : BuiltIn l) (c : Context) : Mild (l.phases.collected c) := by
  cases h with
  | schema value source => exact mild_pure ⟨rfl, rfl⟩
  | declarations value output => exact mild_writeDeclarations c
  | resolvers value output => exact mild_reportConflicts c
  | requestContext value => exact mild_pure ⟨rfl, rfl⟩

theorem has_transform [Parser] (h : BuiltIn l) :
    l.has .transform = (l.plugin.id == resolversId) := by
  cases h <;> rfl

theorem has_finalized [Parser] (h : BuiltIn l) :
    l.has .finalized = (l.plugin.id == declarationsId) := by
  cases h <;> rfl

theorem transform_eq [Parser] (h : BuiltIn l) (hhas : l.has .transform = true) :
    l.phases.transform = updateModules := by
  cases h with
  | resolvers value output => rfl
  | schema value source => cases hhas
  | declarations value output => cases hhas
  | requestContext value => cases hhas

theorem finalized_eq [Parser] (h : BuiltIn l) (hhas : l.has .finalized = true) :
    l.phases.finalized = writeSnapshot := by
  cases h with
  | declarations value output => rfl
  | schema value source => cases hhas
  | resolvers value output => cases hhas
  | requestContext value => cases hhas

theorem requires_declarations [Parser] (h : BuiltIn l) (hhas : l.has .transform = true) :
    declarationsId ∈ l.plugin.requires := by
  cases h with
  | resolvers value output => exact List.mem_singleton_self _
  | schema value source => cases hhas
  | declarations value output => cases hhas
  | requestContext value => cases hhas

end BuiltIn

/-! ### Loading -/

theorem builtIn_entries [Parser] : (Registry.builtIn (StateM Tree)).entries =
    [(schemaId, schemaPlugin _), (declarationsId, declarationsPlugin _),
      (resolversId, resolversPlugin _), (requestContextId, requestContextPlugin _)] := rfl

theorem builtIn_of_find [Parser] {name : String} {plugin : Plugin (StateM Tree)}
    (h : (Registry.builtIn (StateM Tree)).find name = .ok plugin) (value : Toml.Value) :
    plugin.id = name ∧ BuiltIn ⟨plugin, value, plugin.unconfigured⟩ := by
  unfold Registry.find at h
  split at h
  · rename_i found hfound
    obtain rfl := Except.ok.inj h
    obtain ⟨before, after, heq, -⟩ := List.lookup_eq_some_iff.1 hfound
    have hmem : (name, found) ∈ (Registry.builtIn (StateM Tree)).entries :=
      heq ▸ List.mem_append_right before List.mem_cons_self
    simp only [builtIn_entries, List.mem_cons, Prod.mk.injEq, List.not_mem_nil, or_false] at hmem
    rcases hmem with ⟨rfl, rfl⟩ | ⟨rfl, rfl⟩ | ⟨rfl, rfl⟩ | ⟨rfl, rfl⟩
    · exact ⟨rfl, .schema value none⟩
    · exact ⟨rfl, .declarations value none⟩
    · exact ⟨rfl, .resolvers value none⟩
    · exact ⟨rfl, .requestContext value⟩
  · cases h

/-- What a name and a value of a configuration are loaded to. -/
def loadEntry [Parser] (entry : String × Toml.Value) :
    Except Failure (LoadedPlugin (StateM Tree)) := do
  LoadedPlugin.load (← (Registry.builtIn (StateM Tree)).find entry.1) entry.2

/-- The names of plugins and the values that they are configured with. -/
def entries (ls : List (LoadedPlugin (StateM Tree))) : List (String × Toml.Value) :=
  ls.map fun l => (l.plugin.id, l.value)

theorem keys_entries (ls : List (LoadedPlugin (StateM Tree))) :
    (entries ls).map (·.1) = ls.map (·.plugin.id) := List.map_map

theorem builtIn_of_loadEntry [Parser] {entry : String × Toml.Value} {l : LoadedPlugin (StateM Tree)}
    (h : loadEntry entry = .ok l) : (l.plugin.id, l.value) = entry ∧ BuiltIn l := by
  unfold loadEntry at h
  cases hfind : (Registry.builtIn (StateM Tree)).find entry.1 with
  | error e =>
    rw [hfind] at h
    cases h
  | ok plugin =>
    obtain ⟨hid, hbuiltIn⟩ := builtIn_of_find hfind entry.2
    replace h : LoadedPlugin.load plugin entry.2 = .ok l := by
      rw [hfind] at h
      exact h
    unfold LoadedPlugin.load at h
    split at h
    · cases h
    · obtain rfl := Except.ok.inj h
      exact ⟨Prod.ext hid rfl, hbuiltIn⟩

theorem builtIn_of_mapM_loadEntry [Parser] {es : List (String × Toml.Value)}
    {ls : List (LoadedPlugin (StateM Tree))} (h : es.mapM loadEntry = .ok ls) :
    (∀ l ∈ ls, BuiltIn l) ∧ entries ls = es := by
  have hall := mapM_eq_ok_iff.1 h
  clear h
  induction hall with
  | nil => exact ⟨nofun, rfl⟩
  | cons hl _ ih =>
    obtain ⟨hentry, hbuiltIn⟩ := builtIn_of_loadEntry hl
    exact ⟨List.forall_mem_cons.2 ⟨hbuiltIn, ih.1⟩, congrArg₂ List.cons hentry ih.2⟩

/-! ### Running -/

/-- A pipeline of the generator's plugins in a sound tree, before any module is touched. -/
structure Underway [Parser] (p : Pipeline (StateM Tree)) (t : Tree) : Prop where
  builtIn : ∀ l ∈ p.plugins, BuiltIn l
  sound : t.Sound
  modules : p.moduleProblems = []
  merged : p.summary.mergedModules = []

theorem Underway.appending [Parser] {p : Pipeline (StateM Tree)} {t : Tree} (h : Underway p t) :
    p.Appending :=
  fun l hl => ⟨(h.builtIn l hl).appendingPlugin, (h.builtIn l hl).appendingPhases⟩

/-- A step that touches no module. -/
def Preliminary [Parser] (x : Running (StateM Tree) α) : Prop :=
  ∀ p t, Underway p t → Underway (exec x p t).pipeline (exec x p t).world

theorem Preliminary.bind [Parser] {x : Running (StateM Tree) α} {f : α → Running (StateM Tree) β}
    (hx : Preliminary x) (hf : ∀ a, Preliminary (f a)) : Preliminary (x >>= f) := by
  intro p t h
  have hfirst := hx p t h
  rw [exec_bind]
  generalize exec x p t = r at hfirst ⊢
  obtain ⟨outcome, q, v⟩ := r
  cases outcome with
  | error e => exact hfirst
  | ok a => exact hf a q v hfirst

theorem Preliminary.underway [Parser] {x : Running (StateM Tree) α} (hx : Preliminary x)
    {p q : Pipeline (StateM Tree)} {t v : Tree} (h : Underway p t) {outcome : Except Failure α}
    (hexec : exec x p t = ⟨outcome, q, v⟩) : Underway q v := by
  have hq := hx p t h
  rwa [hexec] at hq

theorem preliminary_checkpoint [Parser] : Preliminary checkpoint := by
  intro p t h
  rw [exec_checkpoint]
  split <;> exact h

theorem preliminary_configure [Parser] : Preliminary configure := by
  intro p t h
  rw [exec_configure]
  obtain ⟨hplugins, hworld⟩ := configureAll_invariant p.plugins p.baseDir (I := fun _ t' => t' = t)
    (fun l s c t' hl ht => by
      obtain ⟨hsame, -, hconfigured⟩ := hl.configure s c t'
      exact ⟨hsame.trans ht, hconfigured⟩) h.builtIn (rfl : t = t)
  refine ⟨hplugins, ?_, h.modules, h.merged⟩
  rw [hworld]
  exact h.sound

/-- Plugins that act one after the other and are mild. -/
theorem gather_mild (act : LoadedPlugin (StateM Tree) → Action (StateM Tree) Report)
    {ls : List (LoadedPlugin (StateM Tree))} (hact : ∀ l ∈ ls, Mild (act l)) {t : Tree}
    (ht : t.Sound) :
    (gather act ls t).2.Sound ∧ ∀ rs, (gather act ls t).1 = .ok rs →
      ∀ r ∈ rs, r.mergedModules = [] ∧ r.moduleProblems = [] := by
  induction ls generalizing t with
  | nil =>
    refine ⟨ht, fun rs hrs => ?_⟩
    cases hrs
    simp
  | cons l ls ih =>
    obtain ⟨hl, hls⟩ := List.forall_mem_cons.1 hact
    have ht' := hl.keeps t ht
    rw [gather]
    cases ha : answer (act l).run t with
    | error e => exact ⟨ht', fun rs hrs => by cases hrs⟩
    | ok r =>
      obtain ⟨hsound, hreports⟩ := ih hls ht'
      refine ⟨hsound, fun rs hrs => ?_⟩
      dsimp only at hrs
      cases hrest : (gather act ls (worldAfter (act l).run t)).1 with
      | error e =>
        rw [hrest] at hrs
        cases hrs
      | ok rest =>
        rw [hrest] at hrs
        cases hrs
        exact List.forall_mem_cons.2 ⟨hl.modules t r ha, hreports rest hrest⟩

theorem preliminary_filePhase [Parser] {phase : Phase}
    {act : Phases (StateM Tree) → Context → Action (StateM Tree) Report}
    (hact : ∀ l, BuiltIn l → ∀ c, Mild (act l.phases c)) : Preliminary (filePhase phase act) := by
  intro p t h
  obtain ⟨hsound, hreports⟩ := gather_mild (fun l => act l.phases p.context)
    (fun l (hl : l ∈ p.participants phase) =>
      hact l (h.builtIn l (List.mem_of_mem_filter hl)) p.context) h.sound
  rw [exec_filePhase]
  generalize gather (fun l => act l.phases p.context) (p.participants phase) t = asked at *
  obtain ⟨_ | rs, t'⟩ := asked
  · exact ⟨h.builtIn, hsound, h.modules, h.merged⟩
  · replace hreports := hreports rs rfl
    refine ⟨?_, hsound, ?_, ?_⟩
    · rw [plugins_foldl_apply]
      exact h.builtIn
    · rw [foldl_apply_eq (·.moduleProblems) (·.moduleProblems) (fun _ _ => rfl), h.modules]
      exact List.flatMap_eq_nil_iff.2 fun r hr => (hreports r hr).2
    · rw [foldl_apply_eq (·.summary.mergedModules) (·.mergedModules) (fun _ _ => rfl), h.merged]
      exact List.flatMap_eq_nil_iff.2 fun r hr => (hreports r hr).1

/-- Contexts that agree on what is given to a run. -/
structure Retains (c c' : Context) : Prop where
  document : c'.document = c.document
  settings : c'.settings = c.settings

theorem Retains.refl (c : Context) : Retains c c := ⟨rfl, rfl⟩

theorem Retains.trans {c c' c'' : Context} (h : Retains c c') (h' : Retains c' c'') :
    Retains c c'' := ⟨h'.document.trans h.document, h'.settings.trans h.settings⟩

theorem retains_checked (rules : List Rule) (c : Context) : Retains c (checked rules c) := by
  have hrules : Retains c (rules.foldl (fun c rule => c.addProblems (rule.check c)) c) := by
    induction rules generalizing c with
    | nil => exact .refl c
    | cons rule rules ih =>
      have hfirst : Retains c (c.addProblems (rule.check c)) := ⟨rfl, rfl⟩
      exact hfirst.trans (ih _)
  exact hrules.trans ⟨rfl, rfl⟩

theorem walk_eq {vs : List (Visitor (StateM Tree))} (hvs : ∀ v ∈ vs, v = collector (StateM Tree))
    (d : Schema.Document) (c : Context) : ∃ c', walk vs d c = pure c' ∧ Retains c c' := by
  have hvisit : ∀ x ∈ d.definitions.zipIdx, ∀ c, ∃ c',
      vs.foldlM (fun c v => v.visit x.2 x.1 c) c = (pure c' : StateM Tree _) ∧ Retains c c' := by
    intro x _ c
    refine foldlM_eq_pure Retains.refl Retains.trans (fun v hv c => ?_) c
    have hwalk := c.walk_collect x.2 x.1
    exact ⟨_, by rw [hvs v hv]; rfl, hwalk.document, hwalk.settings⟩
  have hfinish : ∀ v ∈ vs, ∀ c, ∃ c', v.finish c = (pure c' : StateM Tree _) ∧ Retains c c' :=
    fun v hv c => ⟨c.resolveOperations, by rw [hvs v hv]; rfl, rfl, rfl⟩
  obtain ⟨c', hc', hvisited⟩ := foldlM_eq_pure Retains.refl Retains.trans hvisit c
  obtain ⟨c'', hc'', hfinished⟩ := foldlM_eq_pure Retains.refl Retains.trans hfinish c'
  refine ⟨c'', ?_, hvisited.trans hfinished⟩
  rw [walk, hc', pure_bind, hc'']

/-- A document is collected and checked without regard to files. -/
theorem collecting_eq [Parser] {p : Pipeline (StateM Tree)} (h : ∀ l ∈ p.plugins, BuiltIn l)
    (d : Schema.Document) : ∃ c, collecting p d = pure c ∧ Retains p.context c := by
  have hmem : ∀ phase, ∀ l ∈ p.participants phase, BuiltIn l :=
    fun _ l hl => h l (List.mem_of_mem_filter hl)
  obtain ⟨visitors, hvisitors, hcollector⟩ := mapM_eq_pure (W := Tree)
    fun l hl => (hmem .collect l hl).collect_eq
  obtain ⟨rules, hrules, -⟩ := mapM_eq_pure (W := Tree)
    fun l hl => (hmem .validate l hl).validators_eq
  obtain ⟨c, hc, hwalk⟩ := walk_eq
    (fun v hv => hcollector _ (List.reduceOption_mem_iff.1 hv) v rfl) d p.context
  refine ⟨_, ?_, hwalk.trans (retains_checked rules.flatten c)⟩
  rw [collecting, hvisitors, pure_bind, hrules, pure_bind, hc, pure_bind]

theorem preliminary_collectAndValidate [Parser] : Preliminary collectAndValidate := by
  intro p t h
  rw [exec_collectAndValidate]
  cases p.context.document with
  | none => exact h
  | some d =>
    obtain ⟨c, hc, -⟩ := collecting_eq h.builtIn d
    dsimp only
    rw [hc]
    exact ⟨h.builtIn, h.sound, h.modules, h.merged⟩

theorem preliminary_untilFirstCheckpoint [Parser] : Preliminary untilFirstCheckpoint :=
  preliminary_configure.bind fun _ =>
    (preliminary_filePhase fun _ hl c => hl.mild_initial c).bind fun _ =>
      preliminary_collectAndValidate

theorem preliminary_untilSecondCheckpoint [Parser] : Preliminary untilSecondCheckpoint :=
  preliminary_untilFirstCheckpoint.bind fun _ => preliminary_checkpoint.bind fun _ =>
    preliminary_filePhase fun _ hl c => hl.mild_collected c

/-! ### Plugins that are configured once -/

/-- A phase in which the plugin of one name takes part. -/
theorem Underway.participants_eq_singleton [Parser] {p : Pipeline (StateM Tree)} {t : Tree}
    (h : Underway p t) {phase : Phase} {id : String}
    (hhas : ∀ l, BuiltIn l → l.has phase = (l.plugin.id == id))
    (hnodup : (p.plugins.map (·.plugin.id)).Nodup) (hmem : id ∈ p.plugins.map (·.plugin.id)) :
    ∃ l, p.participants phase = [l] ∧ BuiltIn l ∧ l.has phase = true := by
  have hids : (p.participants phase).map (·.plugin.id) = [id] := by
    calc (p.participants phase).map (·.plugin.id)
        = (p.plugins.filter (·.plugin.id == id)).map (·.plugin.id) := by
          rw [participants, List.filter_congr fun l hl => hhas l (h.builtIn l hl)]
      _ = (p.plugins.map (·.plugin.id)).filter (· == id) := by
          rw [List.filter_map]
          rfl
      _ = [id] := by
          rw [List.filter_beq, List.count_eq_one_of_mem hnodup hmem]
          rfl
  obtain ⟨l, hl, -⟩ := List.map_eq_singleton_iff.1 hids
  have hpart : l ∈ p.plugins ∧ l.has phase = true :=
    List.mem_filter.1 (hl ▸ List.mem_singleton_self l : l ∈ p.participants phase)
  exact ⟨l, hl, h.builtIn l hpart.1, hpart.2⟩

/-- What a plugin of a pipeline requires is in the pipeline. -/
theorem mem_ids_of_create {baseDir : Path} {dry : Bool} {p : Pipeline (StateM Tree)}
    (hcreate : create baseDir dry p.plugins = .ok p) {l : LoadedPlugin (StateM Tree)}
    (hl : l ∈ p.plugins) {id : String} (hid : id ∈ l.plugin.requires) :
    id ∈ p.plugins.map (·.plugin.id) := by
  unfold create at hcreate
  split at hcreate
  · cases hcreate
  · rename_i hnone
    have hmissing := List.findSome?_eq_none_iff.1 hnone l hl
    rw [missingRequirement?, Option.map_eq_none_iff, List.find?_eq_none] at hmissing
    simpa using hmissing id hid

/-- A pipeline is made of the plugins that a configuration names. -/
theorem create_of_pipeline [Parser] {config : Configuration} {dry : Bool}
    {p : Pipeline (StateM Tree)}
    (h : (Registry.builtIn (StateM Tree)).pipeline config dry = .ok p) :
    config.plugins.mapM loadEntry = .ok p.plugins ∧ create config.baseDir dry p.plugins = .ok p := by
  have hload : (config.plugins.mapM loadEntry >>= create config.baseDir dry) = .ok p := h
  cases hls : config.plugins.mapM loadEntry with
  | error e =>
    rw [hls] at hload
    cases hload
  | ok ls =>
    rw [hls] at hload
    have hcreate : create config.baseDir dry ls = .ok p := hload
    obtain ⟨rfl, -⟩ := create_eq_ok hcreate
    exact ⟨rfl, hcreate⟩

theorem entries_of_pipeline [Parser] {config : Configuration} {dry : Bool}
    {p : Pipeline (StateM Tree)}
    (h : (Registry.builtIn (StateM Tree)).pipeline config dry = .ok p) :
    entries p.plugins = config.plugins := (builtIn_of_mapM_loadEntry (create_of_pipeline h).1).2

/-- A configuration is loaded to a pipeline of the plugins that it names. -/
theorem underway_of_pipeline [Parser] {config : Configuration} {dry : Bool}
    {p : Pipeline (StateM Tree)}
    (h : (Registry.builtIn (StateM Tree)).pipeline config dry = .ok p) {t : Tree} (ht : t.Sound) :
    Underway p t ∧ p.plugins.map (·.plugin.id) = config.plugins.map (·.1) ∧
      create config.baseDir dry p.plugins = .ok p := by
  obtain ⟨hload, hcreate⟩ := create_of_pipeline h
  obtain ⟨-, -, -, hmodules, hsummary⟩ := create_eq_ok hcreate
  refine ⟨⟨(builtIn_of_mapM_loadEntry hload).1, ht, hmodules, hsummary ▸ rfl⟩, ?_, hcreate⟩
  rw [← keys_entries, entries_of_pipeline h]

end TypeLoom.Plugins
