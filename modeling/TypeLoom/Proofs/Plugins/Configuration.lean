import TypeLoom.Proofs.Plugins.BuiltIn

/-!
# Plugins once they are configured

Configuring the generator's own plugins does not depend on files. Main statement: the plugin that
loads the schema then does so from the source that the configuration names, so what it loads from a
tree is known from the pipeline before it is run.
-/

namespace TypeLoom.Plugins

open Files Files.Tree Pipeline Collected
open ResolverModule (Parser)

section

variable {l : LoadedPlugin (StateM Tree)} {ls : List (LoadedPlugin (StateM Tree))} {baseDir : Path}
  {c : Context}

theorem BuiltIn.has_configure [Parser] (h : BuiltIn l) : l.has .configure = true := by
  cases h <;> rfl

/-- Plugins that were configured, in a context whose input was `input` before: a plugin that loads
the schema does so from the source that its table names, and that is the input from then on. -/
structure Configured (baseDir : Path) (input : Option Path) (ls : List (LoadedPlugin (StateM Tree)))
    (c : Context) : Prop where
  sources : ∀ l ∈ ls, l.plugin.id = schemaId → ∃ s,
    schemaSource ⟨schemaId, baseDir, l.value⟩ = .ok s ∧ l.phases = schemaPhases (some s)
  input : ∀ q, c.settings.schemaInput = some q → input = some q ∨
    ∃ l ∈ ls, l.plugin.id = schemaId ∧ ∃ s, schemaSource ⟨schemaId, baseDir, l.value⟩ = .ok s ∧
      l.phases = schemaPhases (some s) ∧ s.path = q

theorem configureAll_eq [Parser] (baseDir : Path) (hls : ∀ l ∈ ls, BuiltIn l) (c : Context) :
    ∃ r, (configureAll baseDir ls c : StateM Tree _) = pure r ∧ entries r.2.1 = entries ls ∧
      r.2.2.document = c.document ∧
      (r.1 = .ok () → Configured baseDir c.settings.schemaInput r.2.1 r.2.2) := by
  induction ls generalizing c with
  | nil =>
    exact ⟨_, rfl, rfl, rfl, fun _ => ⟨fun _ hl => absurd hl List.not_mem_nil, fun _ => .inl⟩⟩
  | cons l ls ih =>
    obtain ⟨hl, hrest⟩ := List.forall_mem_cons.mp hls
    obtain ⟨⟨outcome, c'⟩, hx, -, hdocument, hconfigured⟩ :=
      hl.configure_eq ⟨l.plugin.id, baseDir, l.value⟩ c
    rw [configureAll, if_pos hl.has_configure, hx, pure_bind]
    cases outcome with
    | error e => exact ⟨_, rfl, rfl, hdocument, fun hok => by cases hok⟩
    | ok f =>
      obtain ⟨⟨rest, ls', c''⟩, hr, hentries, hdocument', hrest'⟩ := ih hrest c'
      dsimp only at hentries hdocument' hrest' ⊢
      rw [hr, pure_bind]
      refine ⟨_, rfl, congrArg (_ :: ·) hentries, hdocument'.trans hdocument, fun hok => ?_⟩
      obtain ⟨hsources, hinput⟩ := hrest' hok
      rcases (hconfigured f rfl).2 with ⟨hne, hsame⟩ | ⟨hid, s, hs, hf, hpath⟩
      · refine ⟨List.forall_mem_cons.mpr ⟨fun hid => absurd hid hne, hsources⟩, fun q hq => ?_⟩
        dsimp only at hsame
        rw [hsame] at hinput
        rcases hinput q hq with h | ⟨k, hk, h⟩
        · exact .inl h
        · exact .inr ⟨k, List.mem_cons_of_mem _ hk, h⟩
      · rw [hid] at hs
        refine ⟨List.forall_mem_cons.mpr ⟨fun _ => ⟨s, hs, hf⟩, hsources⟩, fun q hq => .inr ?_⟩
        rcases hinput q hq with h | ⟨k, hk, h⟩
        · exact ⟨_, List.mem_cons_self, hid, s, hs, hf, Option.some.inj (hpath.symm.trans h)⟩
        · exact ⟨k, List.mem_cons_of_mem _ hk, h⟩

end

/-- The schema that a pipeline names, as it is loaded from a tree. -/
def schemaIn (p : Pipeline (StateM Tree)) (t : Tree) : Except Failure Schema.Document :=
  match (entries p.plugins).lookup schemaId with
  | none => .error .noDocument
  | some value => do
    let s ← schemaSource ⟨schemaId, p.baseDir, value⟩
    answer (s.load : Action (StateM Tree) _).run t

theorem lookup_of_nodup {es : List (String × Toml.Value)} {name : String} {value : Toml.Value}
    (hnodup : (es.map (·.1)).Nodup) (h : (name, value) ∈ es) : es.lookup name = some value := by
  obtain ⟨before, after, rfl⟩ := List.append_of_mem h
  refine List.lookup_eq_some_iff.mpr ⟨before, after, rfl, fun e he => ?_⟩
  rw [List.map_append, List.map_cons, List.nodup_append] at hnodup
  exact bne_iff_ne.mpr
    (hnodup.2.2 e.1 (List.mem_map_of_mem he) name List.mem_cons_self).symm

theorem schemaIn_eq {p : Pipeline (StateM Tree)} {value : Toml.Value}
    (hvalue : (entries p.plugins).lookup schemaId = some value) {s : SchemaSource}
    (hs : schemaSource ⟨schemaId, p.baseDir, value⟩ = .ok s) (t : Tree) :
    schemaIn p t = answer (s.load : Action (StateM Tree) _).run t := by
  rw [schemaIn, hvalue]
  dsimp only
  rw [hs]
  rfl

/-- The source that a pipeline names is that of a plugin that was configured. -/
theorem exists_source {p : Pipeline (StateM Tree)} {ls : List (LoadedPlugin (StateM Tree))}
    {input : Option Path} {c : Context} (hls : Configured p.baseDir input ls c)
    (hentries : entries ls = entries p.plugins) {value : Toml.Value}
    (hvalue : (entries p.plugins).lookup schemaId = some value) {s : SchemaSource}
    (hs : schemaSource ⟨schemaId, p.baseDir, value⟩ = .ok s) :
    ∃ l ∈ ls, l.plugin.id = schemaId ∧ l.phases = schemaPhases (some s) := by
  obtain ⟨before, after, hsplit, -⟩ := List.lookup_eq_some_iff.mp hvalue
  have hentry : (schemaId, value) ∈ entries ls := by
    rw [hentries, hsplit]
    exact List.mem_append_right before List.mem_cons_self
  obtain ⟨l, hl, heq⟩ := List.mem_map.mp hentry
  obtain ⟨hid, rfl⟩ := Prod.mk.inj heq
  obtain ⟨s', hs', hphases⟩ := hls.sources l hl hid
  obtain rfl : s' = s := Except.ok.inj (hs'.symm.trans hs)
  exact ⟨l, hl, hid, hphases⟩

/-- The schema that a pipeline names is loaded by the plugin that was configured for it. -/
theorem load_of_schemaIn {p : Pipeline (StateM Tree)} {T : Tree} {d : Schema.Document}
    (h : schemaIn p T = .ok d) {ls : List (LoadedPlugin (StateM Tree))} {input : Option Path}
    {c : Context} (hls : Configured p.baseDir input ls c) (hentries : entries ls = entries p.plugins)
    (hnodup : ((entries p.plugins).map (·.1)).Nodup) {l : LoadedPlugin (StateM Tree)} (hl : l ∈ ls)
    (hid : l.plugin.id = schemaId) : ∃ s, l.phases = schemaPhases (some s) ∧
      answer (s.load : Action (StateM Tree) _).run T = .ok d := by
  obtain ⟨s, hs, hphases⟩ := hls.sources l hl hid
  have hentry : (schemaId, l.value) ∈ entries p.plugins := by
    rw [← hentries, ← hid]
    exact List.mem_map_of_mem hl
  exact ⟨s, hphases, (schemaIn_eq (lookup_of_nodup hnodup hentry) hs T).symm.trans h⟩

end TypeLoom.Plugins
