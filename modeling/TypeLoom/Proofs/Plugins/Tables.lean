import Mathlib.Data.List.Perm.Basic
import TypeLoom.Proofs.Plugins.Regeneration

/-!
# Tables in another order

A configuration has one table for each plugin. Main statements: with its tables in another order it
is loaded to the same plugins in that order, each plugin gets the phases that it gets anyway, and
together they set the same.
-/

namespace TypeLoom.Plugins

open Files Files.Tree Pipeline Collected Generation
open ResolverModule (Parser)

/-! ### What a table sets -/

/-- What plugins set. -/
inductive Sets : String → (Settings → Settings) → Prop
  | schema (input : Path) : Sets schemaId fun s => { s with schemaInput := some input }
  | declarations (o : Output) : Sets declarationsId fun s =>
      { s with typesOutput := some o.path, typesImport := o.importLead }
  | resolvers (o : Output) : Sets resolversId fun s =>
      { s with resolversOutput := some o.path, resolversImport := o.importLead }
  | requestContext (i : ContextImport) : Sets requestContextId fun s =>
      { s with contextImport := some i }

namespace Sets

variable {id id' : String} {f g : Settings → Settings} {s : Settings}

/-- Plugins of different names set different things. -/
theorem comm (hf : Sets id f) (hg : Sets id' g) (hne : id ≠ id') : f (g s) = g (f s) := by
  cases hf <;> cases hg <;> first | rfl | exact absurd rfl hne

theorem keeps_input (hf : Sets id f) (h : s.schemaInput.isSome = true) :
    (f s).schemaInput.isSome = true := by
  cases hf <;> first | exact h | rfl

theorem keeps_output (hf : Sets id f) (h : s.typesOutput.isSome = true) :
    (f s).typesOutput.isSome = true := by
  cases hf <;> first | exact h | rfl

theorem input (hf : Sets schemaId f) : (f s).schemaInput.isSome = true := by
  generalize hid : schemaId = id at hf
  cases hf with
  | schema => rfl
  | declarations => exact absurd hid (by decide)
  | resolvers => exact absurd hid (by decide)
  | requestContext => exact absurd hid (by decide)

theorem output (hf : Sets declarationsId f) : (f s).typesOutput.isSome = true := by
  generalize hid : declarationsId = id at hf
  cases hf with
  | declarations => rfl
  | schema => exact absurd hid (by decide)
  | resolvers => exact absurd hid (by decide)
  | requestContext => exact absurd hid (by decide)

end Sets

section

variable {baseDir : Path} {l : LoadedPlugin (StateM Tree)} {ls : List (LoadedPlugin (StateM Tree))}

/-- A plugin whose table is valid: its phases once it is configured, and what it sets. -/
structure Adopts (baseDir : Path) (l : LoadedPlugin (StateM Tree))
    (x : Phases (StateM Tree) × (Settings → Settings)) : Prop where
  configure : ∀ c, l.plugin.configure ⟨l.plugin.id, baseDir, l.value⟩ c =
    pure (.ok x.1, { c with settings := x.2 c.settings })
  sets : Sets l.plugin.id x.2

/-- What configuring a plugin gives that reads its table. -/
def configured {α : Type} (f : α → Phases (StateM Tree)) (g : α → Settings → Settings) (c : Context) :
    Except Failure α → Except Failure (Phases (StateM Tree)) × Context
  | .error e => (.error e, c)
  | .ok a => (.ok (f a), { c with settings := g a c.settings })

/-- A plugin that reads its table adopts what it reads, or fails. -/
theorem adopts_of_read {α : Type} (read : Except Failure α) (f : α → Phases (StateM Tree))
    {g : α → Settings → Settings}
    (hconfigure : ∀ c, l.plugin.configure ⟨l.plugin.id, baseDir, l.value⟩ c =
      pure (configured f g c read))
    (hsets : ∀ a, Sets l.plugin.id (g a)) :
    (∃ x, Adopts baseDir l x) ∨
      ∃ e, ∀ c, l.plugin.configure ⟨l.plugin.id, baseDir, l.value⟩ c = pure (.error e, c) := by
  cases read with
  | error e => exact .inr ⟨e, hconfigure⟩
  | ok a => exact .inl ⟨(f a, g a), hconfigure, hsets a⟩

theorem BuiltIn.adopts [Parser] (h : BuiltIn l) (baseDir : Path) :
    (∃ x, Adopts baseDir l x) ∨
      ∃ e, ∀ c, l.plugin.configure ⟨l.plugin.id, baseDir, l.value⟩ c = pure (.error e, c) := by
  cases h with
  | schema value source =>
    refine adopts_of_read (schemaSource ⟨schemaId, baseDir, value⟩) (fun s => schemaPhases (some s))
      (fun c => ?_) fun s => .schema s.path
    dsimp only [schemaPlugin]
    cases schemaSource ⟨schemaId, baseDir, value⟩ <;> rfl
  | declarations value output =>
    refine adopts_of_read (readOutput "TypeScriptPluginConfig" ⟨declarationsId, baseDir, value⟩)
      (fun o => declarationPhases (some o)) (fun c => ?_) .declarations
    dsimp only [declarationsPlugin]
    cases readOutput "TypeScriptPluginConfig" ⟨declarationsId, baseDir, value⟩ <;> rfl
  | resolvers value output =>
    refine adopts_of_read (readOutput "ResolverPluginConfig" ⟨resolversId, baseDir, value⟩)
      (fun o => resolverPhases (some o)) (fun c => ?_) .resolvers
    dsimp only [resolversPlugin]
    cases readOutput "ResolverPluginConfig" ⟨resolversId, baseDir, value⟩ <;> rfl
  | requestContext value =>
    refine adopts_of_read (readContextImport ⟨requestContextId, baseDir, value⟩) (fun _ => .idle _)
      (fun c => ?_) .requestContext
    dsimp only [requestContextPlugin]
    cases readContextImport ⟨requestContextId, baseDir, value⟩ <;> rfl

/-- Where plugins are configured without failing, their tables are valid. -/
theorem adopts_of_configureAll [Parser] (hls : ∀ l ∈ ls, BuiltIn l) {c : Context} {t : Tree}
    (hok : (answer (configureAll baseDir ls c : StateM Tree _) t).1 = .ok ()) :
    ∀ l ∈ ls, ∃ x, Adopts baseDir l x := by
  induction ls generalizing c with
  | nil => exact nofun
  | cons l ls ih =>
    obtain ⟨hl, hrest⟩ := List.forall_mem_cons.mp hls
    rw [configureAll, if_pos hl.has_configure] at hok
    rcases hl.adopts baseDir with ⟨x, hx⟩ | ⟨e, he⟩
    · rw [hx.configure, pure_bind] at hok
      exact List.forall_mem_cons.mpr ⟨⟨x, hx⟩, ih hrest hok⟩
    · rw [he, pure_bind] at hok
      cases hok

/-- Plugins whose tables are valid are configured without failing. -/
theorem configureAll_of_adopts [Parser]
    {x : LoadedPlugin (StateM Tree) → Phases (StateM Tree) × (Settings → Settings)}
    (hls : ∀ l ∈ ls, BuiltIn l) (hx : ∀ l ∈ ls, Adopts baseDir l (x l)) (c : Context) :
    configureAll baseDir ls c = (pure (.ok (), ls.map fun l => { l with phases := (x l).1 },
      { c with settings := ls.foldl (fun s l => (x l).2 s) c.settings }) : StateM Tree _) := by
  induction ls generalizing c with
  | nil => rfl
  | cons l ls ih =>
    obtain ⟨hl, hrest⟩ := List.forall_mem_cons.mp hls
    obtain ⟨hxl, hxrest⟩ := List.forall_mem_cons.mp hx
    rw [configureAll, if_pos hl.has_configure, hxl.configure, pure_bind]
    dsimp only
    rw [ih hrest hxrest, pure_bind]
    rfl

/-- What one of several steps establishes and all of them keep holds after them. -/
theorem foldl_establishes {α β : Type} {P : β → Prop} {f : β → α → β} {as : List α}
    (hkeep : ∀ a ∈ as, ∀ b, P b → P (f b a)) {a : α} (ha : a ∈ as) (hset : ∀ b, P (f b a)) (b : β) :
    P (as.foldl f b) := by
  obtain ⟨before, after, rfl⟩ := List.append_of_mem ha
  rw [List.foldl_append, List.foldl_cons]
  refine List.foldlRecOn after f (hset _) fun b hb a' ha' => ?_
  exact hkeep a' (List.mem_append_right _ (List.mem_cons_of_mem a ha')) b hb

/-- Configured in another order, plugins get the same phases and together set the same. -/
theorem configureAll_perm [Parser] {ks : List (LoadedPlugin (StateM Tree))}
    (hls : ∀ l ∈ ls, BuiltIn l)
    (hids : (ls.map (·.plugin.id)).Nodup) (hperm : ks.Perm ls) {c : Context} {t : Tree}
    (hok : (answer (configureAll baseDir ls c : StateM Tree _) t).1 = .ok ()) :
    ∃ (f : LoadedPlugin (StateM Tree) → Phases (StateM Tree)) (s : Settings),
      (configureAll baseDir ls c : StateM Tree _) =
        pure (.ok (), ls.map fun l => { l with phases := f l }, { c with settings := s }) ∧
      (configureAll baseDir ks c : StateM Tree _) =
        pure (.ok (), ks.map fun l => { l with phases := f l }, { c with settings := s }) ∧
      (schemaId ∈ ls.map (·.plugin.id) → s.schemaInput.isSome = true) ∧
      (declarationsId ∈ ls.map (·.plugin.id) → s.typesOutput.isSome = true) := by
  have : Nonempty (Phases (StateM Tree)) := ⟨.idle _⟩
  choose! x hx using adopts_of_configureAll hls hok
  refine ⟨fun l => (x l).1, ls.foldl (fun s l => (x l).2 s) c.settings,
    configureAll_of_adopts hls hx c, ?_, fun hid => ?_, fun hid => ?_⟩
  · rw [configureAll_of_adopts (fun l hl => hls l (hperm.mem_iff.mp hl))
      (fun l hl => hx l (hperm.mem_iff.mp hl)) c]
    have hsettings : ks.foldl (fun s l => (x l).2 s) c.settings =
        ls.foldl (fun s l => (x l).2 s) c.settings := by
      refine (hperm.symm.foldl_eq' (fun k hk l hl s => ?_) _).symm
      by_cases hid : k.plugin.id = l.plugin.id
      · rw [List.inj_on_of_nodup_map hids hk hl hid]
      · exact (hx l hl).sets.comm (hx k hk).sets (Ne.symm hid)
    rw [hsettings]
  · obtain ⟨l, hl, hid⟩ := List.mem_map.mp hid
    exact foldl_establishes (P := fun s : Settings => s.schemaInput.isSome = true)
      (fun k hk _ h => (hx k hk).sets.keeps_input h) hl
      (fun s => (hid ▸ (hx l hl).sets : Sets schemaId (x l).2).input) _
  · obtain ⟨l, hl, hid⟩ := List.mem_map.mp hid
    exact foldl_establishes (P := fun s : Settings => s.typesOutput.isSome = true)
      (fun k hk _ h => (hx k hk).sets.keeps_output h) hl
      (fun s => (hid ▸ (hx l hl).sets : Sets declarationsId (x l).2).output) _

end

/-! ### Loading -/

/-- With its tables in another order a configuration is loaded to the same plugins. -/
theorem pipeline_perm [Parser] {config : Configuration} {dry : Bool} {p : Pipeline (StateM Tree)}
    (h : (Registry.builtIn (StateM Tree)).pipeline config dry = .ok p)
    {es : List (String × Toml.Value)} (hperm : es.Perm config.plugins) :
    ∃ ls : List (LoadedPlugin (StateM Tree)), ls.Perm p.plugins ∧
      (Registry.builtIn (StateM Tree)).pipeline { config with plugins := es } dry =
        .ok { p with plugins := ls } := by
  obtain ⟨hload, hcreate⟩ := create_of_pipeline h
  obtain ⟨ls, hall, hls⟩ := List.perm_comp_forall₂ hperm (mapM_eq_ok_iff.mp hload)
  refine ⟨ls, hls, ?_⟩
  show (es.mapM loadEntry >>= create config.baseDir dry) = _
  rw [mapM_eq_ok_iff.mpr hall]
  show create config.baseDir dry ls = _
  have hmissing : ∀ l, missingRequirement? ls l = missingRequirement? p.plugins l := by
    intro l
    unfold missingRequirement?
    congr 2
    funext id
    rw [hls.any_eq]
  unfold create at hcreate ⊢
  have hnone : ls.findSome? (missingRequirement? ls) = none := by
    rw [List.findSome?_eq_none_iff]
    intro l hl
    split at hcreate
    · cases hcreate
    · rename_i hfound
      rw [hmissing]
      exact List.findSome?_eq_none_iff.mp hfound l (hls.mem_iff.mp hl)
  rw [hnone]
  split at hcreate
  · cases hcreate
  · rw [← Except.ok.inj hcreate]

end TypeLoom.Plugins
