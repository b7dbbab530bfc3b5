import TypeLoom.Proofs.Plugins.Independence

/-!
# Actions that are repeated

What the generator's own plugins do in one phase of a run they do again in the tree at the end of the
run. Main statements: they write nothing but the files that they report, and if those are kept up to
the end they answer the same there and leave the tree as it is; modules that were brought up to date
are found to be so.
-/

namespace TypeLoom.Plugins

open Files Files.Tree Pipeline Collected Generation
open ResolverModule (Parser Update merge)

section

variable {x : Action (StateM Tree) Unit} {r : Report} {t : Tree}

/-- A report that is made after an action. -/
theorem run_reporting (x : Action (StateM Tree) Unit) (r : Report) (t : Tree) :
    answer (x >>= fun _ => pure r : Action (StateM Tree) Report).run t =
        (answer x.run t).map (fun _ => r) ∧
      worldAfter (x >>= fun _ => pure r : Action (StateM Tree) Report).run t =
        worldAfter x.run t := by
  rw [answer_run_bind, worldAfter_run_bind]
  cases answer x.run t <;> exact ⟨rfl, rfl⟩

theorem reporting_ok {r' : Report}
    (h : answer (x >>= fun _ => pure r : Action (StateM Tree) Report).run t = .ok r') :
    answer x.run t = .ok () ∧ r' = r := by
  rw [(run_reporting x r t).1] at h
  cases ha : answer x.run t with
  | error e =>
    rw [ha] at h
    cases h
  | ok u =>
    rw [ha] at h
    cases h
    exact ⟨rfl, rfl⟩

theorem writeFiles_eq (files : List (Path × String)) :
    (writeFiles files : Action (StateM Tree) Report) =
      writeEach files >>= fun _ => pure (.ofWritten (files.map (·.1))) := rfl

/-- An output is prepared by creating its directory, if at all. -/
theorem prepare_cases (output : Option Output) (c : Context) :
    (prepare output c : Action (StateM Tree) Report) = pure .empty ∨
      ∃ q, (prepare output c : Action (StateM Tree) Report) =
        makeDirectories q >>= fun _ => pure .empty := by
  unfold prepare
  cases output with
  | none => exact .inl rfl
  | some o =>
    cases c.settings.dryRun with
    | true => exact .inl rfl
    | false => exact .inr ⟨o.path, rfl⟩

end

/-! ### Files that are reported -/

/-- An action that, if it succeeds, writes nothing but the files that it reports. -/
def Restrained (a : Action (StateM Tree) Report) : Prop :=
  ∀ T t r, t.Sound → answer a.run t = .ok r → Later (worldAfter a.run t) T →
    Writes T r.writtenFiles t (worldAfter a.run t)

theorem restrained_pure (r : Report) : Restrained (pure r) := fun T _ _ hs _ _ => .refl hs T _

theorem Restrained.still_bind {α : Type} {x : Action (StateM Tree) α}
    {f : α → Action (StateM Tree) Report} (hx : Still x.run) (hf : ∀ a, Restrained (f a)) :
    Restrained (x >>= f) := by
  intro T t r hs h hT
  obtain ⟨a, -, hrest, hworld⟩ := run_bind_ok h
  rw [hx] at hrest hworld
  rw [hworld] at hT ⊢
  exact hf a T t r hs hrest hT

theorem restrained_writeFiles (files : List (Path × String)) : Restrained (writeFiles files) := by
  intro T t r hs h hT
  rw [writeFiles_eq] at h hT ⊢
  obtain ⟨hok, rfl⟩ := reporting_ok h
  rw [(run_reporting _ _ t).2] at hT ⊢
  exact writes_writeEach hs hok hT

theorem restrained_prepare (output : Option Output) (c : Context) :
    Restrained (prepare output c) := by
  rcases prepare_cases output c with h | ⟨q, h⟩
  · rw [h]
    exact restrained_pure _
  · intro T t r hs hok _
    rw [h] at hok ⊢
    obtain ⟨-, rfl⟩ := reporting_ok hok
    rw [(run_reporting _ _ t).2]
    exact writes_makeDirectories hs T q

theorem restrained_loadReport (source : Option SchemaSource) : Restrained (loadReport source) := by
  cases source with
  | none => exact fun _ _ _ _ h => by cases h
  | some s => exact .still_bind (still_load s) fun _ => restrained_pure _

theorem restrained_writeDeclarations (c : Context) : Restrained (writeDeclarations c) := by
  refine .still_bind (still_outputPaths _ _ _ c) fun paths => ?_
  dsimp only
  split
  · exact restrained_pure _
  · split
    · exact restrained_pure _
    · exact restrained_writeFiles _

theorem restrained_reportConflicts (c : Context) : Restrained (reportConflicts c) :=
  .still_bind (still_outputPaths _ _ _ c) fun _ => restrained_pure _

theorem restrained_writeSnapshot (c : Context) : Restrained (writeSnapshot c) := by
  unfold writeSnapshot
  cases c.document with
  | none => exact restrained_pure _
  | some d => exact .still_bind (still_outputPaths _ _ _ c) fun _ => restrained_writeFiles _

/-! ### Reports of documents -/

/-- An action that reports no document. -/
def Undocumented (a : Action (StateM Tree) Report) : Prop :=
  ∀ t r, answer a.run t = .ok r → r.documents = []

theorem undocumented_pure {r : Report} (h : r.documents = []) : Undocumented (pure r) := by
  intro t r' hr
  cases hr
  exact h

theorem Undocumented.bind {α : Type} {x : Action (StateM Tree) α}
    {f : α → Action (StateM Tree) Report} (hf : ∀ a, Undocumented (f a)) :
    Undocumented (x >>= f) := by
  intro t r hr
  obtain ⟨a, -, hrest, -⟩ := run_bind_ok hr
  exact hf a _ r hrest

theorem undocumented_writeFiles (files : List (Path × String)) :
    Undocumented (writeFiles files) := .bind fun _ => undocumented_pure rfl

theorem undocumented_prepare (output : Option Output) (c : Context) :
    Undocumented (prepare output c) := by
  rcases prepare_cases output c with h | ⟨q, h⟩
  · rw [h]
    exact undocumented_pure rfl
  · rw [h]
    exact .bind fun _ => undocumented_pure rfl

theorem undocumented_writeDeclarations (c : Context) : Undocumented (writeDeclarations c) := by
  refine .bind fun paths => ?_
  dsimp only
  split
  · exact undocumented_pure rfl
  · split
    · exact undocumented_pure rfl
    · exact undocumented_writeFiles _

/-! ### Actions that are done again -/

/-- An action that is done again at the end of a run, in the tree `T` and in all trees of which `S`
holds. If it was done in a tree later than `t₀` and with a report of which `P` holds, and nothing was
written after it to the files that it reports, it answers the same and leaves a tree of which `S`
holds. -/
def Repeats (t₀ T : Tree) (S : Tree → Prop) (P : Report → Prop)
    (a : Action (StateM Tree) Report) : Prop :=
  ∀ t r rest, t.Sound → Later t₀ t → answer a.run t = .ok r → P r →
    Writes T rest (worldAfter a.run t) T → ((r.writtenFiles ++ rest).map T.canonical).Nodup →
      ∀ T₁, S T₁ → answer a.run T₁ = .ok r ∧ S (worldAfter a.run T₁)

/-- Reports of no document but one. -/
def Loads (d : Schema.Document) (r : Report) : Prop := ∀ e ∈ r.documents, e = d

section

variable {t₀ T : Tree} {S : Tree → Prop} {P : Report → Prop} {d : Schema.Document} {c : Context}

theorem repeats_pure (r : Report) : Repeats t₀ T S P (pure r) :=
  fun _ _ _ _ _ h _ _ _ _ hT₁ => ⟨h, hT₁⟩

theorem repeats_writeFiles (files : List (Path × String)) :
    Repeats t₀ T (Same T) P (writeFiles files) := by
  intro t r rest hs _ h _ hrest hnodup T₁ hT₁
  rw [writeFiles_eq] at h hrest ⊢
  obtain ⟨hok, rfl⟩ := reporting_ok h
  rw [(run_reporting _ _ t).2] at hrest
  have hwritten := written_of_writeEach hs hok hrest hnodup
  obtain ⟨ha, hsame⟩ := writeEach_again fun f hf => (hwritten f hf).same hT₁
  rw [(run_reporting _ _ T₁).1, (run_reporting _ _ T₁).2, ha]
  exact ⟨rfl, hT₁.trans hsame⟩

/-- The directory of an output is not created again. -/
theorem repeats_prepare (output : Option Output) (c : Context) :
    Repeats t₀ T (· = T) P (prepare output c) := by
  rcases prepare_cases output c with h | ⟨q, h⟩
  · rw [h]
    exact repeats_pure _
  · intro t r rest hs _ hok _ hrest _ T₁ hT₁
    subst hT₁
    rw [h] at hok hrest ⊢
    obtain ⟨hcreated, rfl⟩ := reporting_ok hok
    rw [(run_reporting _ _ t).2] at hrest
    obtain ⟨ha, hw⟩ := makeDirectories_of_readied
      ((readied_of_makeDirectories hs hcreated).later hrest.later)
    rw [(run_reporting _ _ T₁).1, (run_reporting _ _ T₁).2, ha]
    exact ⟨rfl, hw⟩

/-- A source of which a schema is loaded is a file or a directory. -/
theorem kind_of_load {s : SchemaSource} {t : Tree}
    (h : answer (s.load : Action (StateM Tree) _).run t = .ok d) :
    t.kind s.path = .ok .file ∨ t.kind s.path = .ok .directory := by
  by_contra hkind
  obtain ⟨hfile, hdirectory⟩ := not_or.mp hkind
  have hfiles : answer (s.files : Action (StateM Tree) _).run t =
      .error (.invalidSchemaInput s.path) := by
    rw [SchemaSource.files, answer_run_bind, answer_run_lift, answer_isFile, worldAfter_run_lift,
      still_isFile, decide_eq_false hfile]
    dsimp only
    rw [if_neg Bool.false_ne_true, answer_run_bind, answer_run_lift, answer_isDirectory,
      worldAfter_run_lift, still_isDirectory, decide_eq_false hdirectory]
    rfl
  rw [SchemaSource.load, answer_run_bind, hfiles] at h
  cases h

theorem loadReport_ok {source : Option SchemaSource} {t : Tree} {r : Report}
    (h : answer (loadReport source : Action (StateM Tree) _).run t = .ok r) :
    ∃ s e, source = some s ∧ answer (s.load : Action (StateM Tree) _).run t = .ok e ∧
      r = .ofDocument e := by
  unfold loadReport at h
  cases source with
  | none => cases h
  | some s =>
    obtain ⟨e, hload, hreport, -⟩ := run_bind_ok h
    cases hreport
    exact ⟨s, e, rfl, hload, rfl⟩

theorem worldAfter_loadReport (source : Option SchemaSource) (t : Tree) :
    worldAfter (loadReport source : Action (StateM Tree) _).run t = t := by
  cases source with
  | none => rfl
  | some s => exact (still_load s).run_bind (fun _ => still_run_pure _) t

/-- A schema that is loaded from the tree at the end is loaded again. -/
theorem repeats_loadReport {s : SchemaSource}
    (h : answer (s.load : Action (StateM Tree) _).run T = .ok d) :
    Repeats t₀ T (· = T) (Loads d) (loadReport (some s)) := by
  intro t r rest _ _ hok hdocuments _ _ T₁ hT₁
  subst hT₁
  obtain ⟨s', e, -, -, rfl⟩ := loadReport_ok hok
  obtain rfl : e = d := hdocuments e (List.mem_singleton_self e)
  refine ⟨?_, worldAfter_loadReport _ T₁⟩
  unfold loadReport
  dsimp only
  rw [answer_run_bind, h]
  rfl

/-- The input of a context is a file or a directory. -/
def InputStands (c : Context) (t : Tree) : Prop :=
  ∀ p, c.settings.schemaInput = some p → t.kind p = .ok .file ∨ t.kind p = .ok .directory

theorem answer_isFile_of_kind {t : Tree} {p : Path} {k : Files.Kind} (h : t.kind p = .ok k) :
    answer (isFile p : StateM Tree Bool) t = (k == .file) := by
  rw [answer_isFile, h]
  cases k <;> rfl

theorem InputStands.later {t t' : Tree} (h : InputStands c t) (hl : Later t t') :
    InputStands c t' := fun p hp => (h p hp).imp hl.kind_file hl.kind_directory

/-- Whether the input is a file is settled once it stands. -/
theorem InputStands.inputIsFile_eq {t t' : Tree} (h : InputStands c t) (hl : Later t t') :
    inputIsFile c t' = inputIsFile c t := by
  have hsame : ∀ p, c.settings.schemaInput = some p →
      answer (isFile p : StateM Tree Bool) t' = answer (isFile p : StateM Tree Bool) t := by
    intro p hinput
    rcases h p hinput with hkind | hkind
    · rw [answer_isFile_of_kind hkind, answer_isFile_of_kind (hl.kind_file hkind)]
    · rw [answer_isFile_of_kind hkind, answer_isFile_of_kind (hl.kind_directory hkind)]
  unfold inputIsFile
  generalize c.settings.schemaInput = input at hsame
  cases input with
  | none => rw [Option.any_none, Option.any_none]
  | some p => rw [Option.any_some, Option.any_some, hsame p rfl]

theorem repeats_declarationPaths (plugin : String) {f : OutputPaths → Action (StateM Tree) Report}
    (hinput : InputStands c t₀) (hwrites : ∀ paths, Restrained (f paths))
    (hf : ∀ paths, Repeats t₀ T (Same T) P (f paths)) :
    Repeats t₀ T (Same T) P (declarationPaths plugin c >>= f) := by
  intro t r rest hs hl h hP hrest hnodup T₁ hT₁
  obtain ⟨paths, hpaths⟩ := exists_outputPaths_of_ok h
  obtain ⟨ha, hw⟩ := run_declarationPaths plugin c f hpaths
  rw [ha] at h
  rw [hw] at hrest
  have hlater : Later t T := (hwrites paths T t r hs h hrest.later).later.trans hrest.later
  have hfile : inputIsFile c T₁ = inputIsFile c t := by
    rw [hinput.inputIsFile_eq (hl.trans (hlater.trans hT₁.later)), hinput.inputIsFile_eq hl]
  obtain ⟨ha₁, hw₁⟩ := run_declarationPaths plugin c f (hfile ▸ hpaths)
  rw [ha₁, hw₁]
  exact hf paths t r rest hs hl h hP hrest hnodup T₁ hT₁

theorem repeats_writeDeclarations (hinput : InputStands c t₀) :
    Repeats t₀ T (Same T) P (writeDeclarations c) := by
  refine repeats_declarationPaths declarationsId hinput (fun paths => ?_) fun paths => ?_
  all_goals
    dsimp only
    split
  · exact restrained_pure _
  · split
    · exact restrained_pure _
    · exact restrained_writeFiles _
  · exact repeats_pure _
  · split
    · exact repeats_pure _
    · exact repeats_writeFiles _

theorem repeats_reportConflicts (hinput : InputStands c t₀) :
    Repeats t₀ T (Same T) P (reportConflicts c) :=
  repeats_declarationPaths resolversId hinput (fun _ => restrained_pure _) fun _ => repeats_pure _

theorem repeats_writeSnapshot (hinput : InputStands c t₀) :
    Repeats t₀ T (Same T) P (writeSnapshot c) := by
  unfold writeSnapshot
  cases c.document with
  | none => exact repeats_pure _
  | some e =>
    exact repeats_declarationPaths declarationsId hinput (fun _ => restrained_writeFiles _)
      fun _ => repeats_writeFiles _

end

namespace BuiltIn

variable {l : LoadedPlugin (StateM Tree)} {t₀ T : Tree} {P : Report → Prop} {d : Schema.Document}

theorem restrained_initial [Parser] (h : BuiltIn l) (c : Context) :
    Restrained (l.phases.initial c) := by
  cases h with
  | schema value source => exact restrained_loadReport source
  | declarations value output => exact restrained_prepare output c
  | resolvers value output => exact restrained_prepare output c
  | requestContext value => exact restrained_pure _

theorem restrained_collected [Parser] (h : BuiltIn l) (c : Context) :
    Restrained (l.phases.collected c) := by
  cases h with
  | schema value source => exact restrained_pure _
  | declarations value output => exact restrained_writeDeclarations c
  | resolvers value output => exact restrained_reportConflicts c
  | requestContext value => exact restrained_pure _

theorem restrained_finalized [Parser] (h : BuiltIn l) (c : Context) :
    Restrained (l.phases.finalized c) := by
  cases h with
  | declarations value output => exact restrained_writeSnapshot c
  | schema value source => exact restrained_pure _
  | resolvers value output => exact restrained_pure _
  | requestContext value => exact restrained_pure _

theorem mild_finalized [Parser] (h : BuiltIn l) (c : Context) : Mild (l.phases.finalized c) := by
  cases h with
  | declarations value output => exact mild_writeSnapshot c
  | schema value source => exact mild_pure ⟨rfl, rfl⟩
  | resolvers value output => exact mild_pure ⟨rfl, rfl⟩
  | requestContext value => exact mild_pure ⟨rfl, rfl⟩

/-- The plugin that loads the schema repeats it if the tree at the end holds the same schema. -/
theorem repeats_initial [Parser] (h : BuiltIn l) (c : Context)
    (hload : l.plugin.id = schemaId → ∃ s, l.phases = schemaPhases (some s) ∧
      answer (s.load : Action (StateM Tree) _).run T = .ok d) :
    Repeats t₀ T (· = T) (Loads d) (l.phases.initial c) := by
  cases h with
  | schema value source =>
    obtain ⟨s, hs, hd⟩ := hload rfl
    dsimp only at hs ⊢
    rw [hs]
    exact repeats_loadReport hd
  | declarations value output => exact repeats_prepare output c
  | resolvers value output => exact repeats_prepare output c
  | requestContext value => exact repeats_pure _

theorem repeats_collected [Parser] (h : BuiltIn l) {c : Context} (hinput : InputStands c t₀) :
    Repeats t₀ T (Same T) P (l.phases.collected c) := by
  cases h with
  | schema value source => exact repeats_pure _
  | declarations value output => exact repeats_writeDeclarations hinput
  | resolvers value output => exact repeats_reportConflicts hinput
  | requestContext value => exact repeats_pure _

theorem repeats_finalized [Parser] (h : BuiltIn l) {c : Context} (hinput : InputStands c t₀) :
    Repeats t₀ T (Same T) P (l.phases.finalized c) := by
  cases h with
  | declarations value output => exact repeats_writeSnapshot hinput
  | schema value source => exact repeats_pure _
  | resolvers value output => exact repeats_pure _
  | requestContext value => exact repeats_pure _

/-- Only the plugin that loads the schema reports documents, and no more than one. -/
theorem length_documents_initial [Parser] (h : BuiltIn l) {c : Context} {t : Tree} {r : Report}
    (hr : answer (l.phases.initial c).run t = .ok r) :
    r.documents.length ≤ [l.plugin.id].count schemaId := by
  cases h with
  | schema value source =>
    obtain ⟨s, e, -, -, rfl⟩ := loadReport_ok hr
    exact le_refl 1
  | declarations value output =>
    rw [undocumented_prepare output c t r hr]
    exact Nat.zero_le _
  | resolvers value output =>
    rw [undocumented_prepare output c t r hr]
    exact Nat.zero_le _
  | requestContext value =>
    cases hr
    exact Nat.zero_le _

theorem undocumented_collected [Parser] (h : BuiltIn l) (c : Context) :
    Undocumented (l.phases.collected c) := by
  cases h with
  | schema value source => exact undocumented_pure rfl
  | declarations value output => exact undocumented_writeDeclarations c
  | resolvers value output => exact .bind fun _ => undocumented_pure rfl
  | requestContext value => exact undocumented_pure rfl

end BuiltIn

/-! ### Modules that are up to date -/

section

variable {T t : Tree} {u : Update} {text : String}

theorem trail_of_textAt {p : Path} (h : textAt t p = .ok (some text)) :
    ∃ place content, t.trail true p = .present place (.file content) := by
  rw [← kind_file_iff]
  by_contra hkind
  rw [textAt_eq, answer_readText, if_neg hkind] at h
  split at h
  · cases h
  · split at h <;> cases h

theorem writes_readyModule (hs : t.Sound) (T : Tree) (u : Update) :
    Writes T [] t (worldAfter (readyModule u).run t) := by
  unfold readyModule
  cases u.module.parent? with
  | none => exact .refl hs T []
  | some parent =>
    dsimp only
    rw [(run_onModule _ _ t).2]
    exact writes_createLineage hs T _

/-- A module is written once its directory is there. -/
theorem run_replaceModule (u : Update) (text : String) (t : Tree) :
    answer (replaceModule u text).run t =
        (match answer (readyModule u).run t with
        | .error e => .error e
        | .ok _ => (((worldAfter (readyModule u).run t).write u.module
            (Text.Utf8.encode text.toList)).1.mapError (.unwritten u.module)).map fun _ => true) ∧
      worldAfter (replaceModule u text).run t =
        match answer (readyModule u).run t with
        | .error _ => worldAfter (readyModule u).run t
        | .ok _ => ((worldAfter (readyModule u).run t).write u.module
            (Text.Utf8.encode text.toList)).2 := by
  rw [replaceModule, answer_run_bind, worldAfter_run_bind]
  generalize worldAfter (readyModule u).run t = t'
  cases answer (readyModule u).run t with
  | error e => exact ⟨rfl, rfl⟩
  | ok _ =>
    dsimp only
    rw [answer_run_bind, worldAfter_run_bind, (run_onModule _ _ t').1, (run_onModule _ _ t').2,
      answer_writeText, worldAfter_writeText]
    cases (t'.write u.module (Text.Utf8.encode text.toList)).1 <;> exact ⟨rfl, rfl⟩

theorem writes_replaceModule (hs : t.Sound)
    (hT : Later (worldAfter (replaceModule u text).run t) T) :
    Writes T [u.module] t (worldAfter (replaceModule u text).run t) := by
  have hready := writes_readyModule hs T u
  rw [(run_replaceModule u text t).2] at hT ⊢
  split at hT
  · exact hready.mono fun _ h => absurd h List.not_mem_nil
  · exact hready.trans (writes_write hready.sound u.module _ hT)

theorem textAt_of_replaceModule (hs : t.Sound) {b : Bool}
    (h : answer (replaceModule u text).run t = .ok b) :
    textAt (worldAfter (replaceModule u text).run t) u.module = .ok (some text) := by
  have hready := writes_readyModule hs t u
  rw [(run_replaceModule u text t).1] at h
  rw [(run_replaceModule u text t).2]
  cases ha : answer (readyModule u).run t with
  | error e =>
    rw [ha] at h
    cases h
  | ok _ =>
    rw [ha] at h
    dsimp only at h ⊢
    cases hw : ((worldAfter (readyModule u).run t).write u.module
        (Text.Utf8.encode text.toList)).1 with
    | error e =>
      rw [hw] at h
      cases h
    | ok =>
      obtain ⟨place, hplace⟩ := trail_of_write hready.sound hw
      exact textAt_of_trail hplace

theorem writes_updateModule [Parser] (hs : t.Sound)
    (hT : Later (worldAfter (updateModule u : ExceptT ModuleProblem (StateM Tree) _).run t) T) :
    Writes T [u.module] t
      (worldAfter (updateModule u : ExceptT ModuleProblem (StateM Tree) _).run t) := by
  rcases updateModule_cases u t with ⟨_, -, -, hw⟩ | ⟨_, _, -, -, -, hw⟩ | ⟨_, -, -, -, hw⟩ |
    ⟨_, merged, -, -, -, -, hw⟩
  all_goals rw [hw] at hT ⊢
  · exact .refl hs T _
  · exact .refl hs T _
  · exact .refl hs T _
  · exact writes_replaceModule hs hT

/-- A module that holds what it was merged to. -/
def Updated [Parser] (t : Tree) (u : Update) : Prop :=
  ∃ existing text, merge existing u = .ok text ∧ textAt t u.module = .ok (some text)

/-- What a module was merged to is not changed by merging it once more. -/
def Stable [Parser] (t : Tree) (u : Update) : Prop :=
  ∀ existing text, merge existing u = .ok text → textAt t u.module = .ok (some text) →
    merge (some text) u = .ok text

/-- The module is read once, so it is enough to know what it holds. -/
theorem stable_of_merge [Parser] (htext : textAt t u.module = .ok (some text))
    (hmerge : merge (some text) u = .ok text) : Stable t u := by
  intro existing text' _ htext'
  obtain rfl := Option.some.inj (Except.ok.inj (htext.symm.trans htext'))
  exact hmerge

theorem Updated.found [Parser] (h : Updated t u) (hstable : Stable t u) (hT : Same t T) :
    ∃ text, textAt T u.module = .ok (some text) ∧ merge (some text) u = .ok text := by
  obtain ⟨existing, text, hmerge, htext⟩ := h
  exact ⟨text, (textAt_congr (hT.kept u.module)).trans htext, hstable existing text hmerge htext⟩

theorem updated_of_updateModule [Parser] (hs : t.Sound) {b : Bool}
    (h : answer (updateModule u : ExceptT ModuleProblem (StateM Tree) _).run t = .ok b) :
    Updated (worldAfter (updateModule u : ExceptT ModuleProblem (StateM Tree) _).run t) u := by
  rcases updateModule_cases u t with ⟨_, -, ha, -⟩ | ⟨_, _, -, -, ha, -⟩ |
    ⟨merged, htext, hmerge, -, hw⟩ | ⟨existing, merged, -, hmerge, -, ha, hw⟩
  · rw [ha] at h
    cases h
  · rw [ha] at h
    cases h
  · rw [hw]
    exact ⟨some merged, merged, hmerge, htext⟩
  · rw [ha] at h
    rw [hw]
    exact ⟨existing, merged, hmerge, textAt_of_replaceModule hs h⟩

/-- A module is kept by what is written to other places. -/
theorem Updated.kept [Parser] {rest : List Path} (h : Updated t u) (hrest : Writes T rest t T)
    (hapart : ∀ q ∈ rest, T.canonical q ≠ T.canonical u.module) : Updated T u := by
  obtain ⟨existing, text, hmerge, htext⟩ := h
  obtain ⟨place, content, hplace⟩ := trail_of_textAt htext
  have hkept := kept_of_trail_eq (hrest.kept hplace hapart)
  exact ⟨existing, text, hmerge, (textAt_congr hkept).trans htext⟩

/-- A module that is up to date stays as it is. -/
theorem updateModule_again [Parser] (htext : textAt t u.module = .ok (some text))
    (hmerge : merge (some text) u = .ok text) :
    answer (updateModule u : ExceptT ModuleProblem (StateM Tree) _).run t = .ok false ∧
      worldAfter (updateModule u : ExceptT ModuleProblem (StateM Tree) _).run t = t := by
  rcases updateModule_cases u t with ⟨e, htext', -, -⟩ | ⟨existing, e, htext', hmerge', -, -⟩ |
    ⟨_, -, -, ha, hw⟩ | ⟨existing, merged, htext', hmerge', hne, -, -⟩
  · rw [htext] at htext'
    cases htext'
  · rw [htext] at htext'
    cases htext'
    rw [hmerge] at hmerge'
    cases hmerge'
  · exact ⟨ha, hw⟩
  · rw [htext] at htext'
    cases htext'
    rw [hmerge] at hmerge'
    cases hmerge'
    exact absurd rfl hne

end

section

variable {T t : Tree} {us : List Update} {rest : List Path}

theorem writes_foldlM_addUpdate [Parser] (us : List Update) (hs : t.Sound) (r : Report)
    (hT : Later (worldAfter (us.foldlM addUpdate r : StateM Tree _) t) T) :
    Writes T (us.map (·.module)) t (worldAfter (us.foldlM addUpdate r : StateM Tree _) t) := by
  induction us generalizing t r with
  | nil => exact .refl hs T []
  | cons u us ih =>
    rw [List.foldlM_cons, worldAfter_bind, worldAfter_addUpdate] at hT ⊢
    have htail := ih (writes_updateModule hs (.refl _)).sound _ hT
    exact (writes_updateModule hs (htail.later.trans hT)).trans htail

theorem exists_tallied [Parser] (us : List Update) (r : Report) (t : Tree) :
    ∃ rs, answer (us.foldlM addUpdate r : StateM Tree _) t = tallied r us rs := by
  induction us generalizing t r with
  | nil => exact ⟨[], by simp [tallied, changed, failures]⟩
  | cons u us ih =>
    rw [List.foldlM_cons, answer_bind, answer_addUpdate]
    obtain ⟨rs, hrs⟩ := ih (tallied r [u] [_]) _
    exact ⟨_ :: rs, hrs.trans (tallied_tallied r u _ us rs)⟩

/-- Modules of which none failed are up to date in the end, if they lead to different places and
nothing else is written there. -/
theorem updated_of_foldlM_addUpdate [Parser] (hs : t.Sound) (r : Report)
    (hok : (answer (us.foldlM addUpdate r : StateM Tree _) t).moduleProblems = [])
    (hrest : Writes T rest (worldAfter (us.foldlM addUpdate r : StateM Tree _) t) T)
    (hnodup : ((us.map (·.module) ++ rest).map T.canonical).Nodup) : ∀ u ∈ us, Updated T u := by
  induction us generalizing t r with
  | nil => exact nofun
  | cons u us ih =>
    rw [List.foldlM_cons, answer_bind, answer_addUpdate, worldAfter_addUpdate] at hok
    rw [List.foldlM_cons, worldAfter_bind, answer_addUpdate, worldAfter_addUpdate] at hrest
    rw [List.map_cons, List.cons_append, List.map_cons, List.nodup_cons] at hnodup
    have hs' := (writes_updateModule (u := u) hs (.refl _)).sound
    have htail := (writes_foldlM_addUpdate us hs' _ hrest.later).trans hrest
    refine List.forall_mem_cons.mpr ⟨?_, ih hs' _ hok hrest hnodup.2⟩
    obtain ⟨rs, hrs⟩ := exists_tallied us (tallied r [u] [_]) _
    rw [hrs] at hok
    cases ha : answer (updateModule u : ExceptT ModuleProblem (StateM Tree) _).run t with
    | error e =>
      rw [ha] at hok
      exact absurd hok (by simp [tallied, failures])
    | ok b =>
      refine (updated_of_updateModule hs ha).kept htail fun q hq hsame => ?_
      exact hnodup.1 (hsame ▸ List.mem_map_of_mem hq)

/-- Modules that are up to date are not touched. -/
theorem foldlM_addUpdate_again [Parser]
    (h : ∀ u ∈ us, ∃ text, textAt t u.module = .ok (some text) ∧ merge (some text) u = .ok text)
    (r : Report) :
    answer (us.foldlM addUpdate r : StateM Tree _) t = r ∧
      worldAfter (us.foldlM addUpdate r : StateM Tree _) t = t := by
  induction us with
  | nil => exact ⟨rfl, rfl⟩
  | cons u us ih =>
    obtain ⟨⟨text, htext, hmerge⟩, hus⟩ := List.forall_mem_cons.mp h
    obtain ⟨ha, hw⟩ := updateModule_again htext hmerge
    have hr : tallied r [u] [.ok false] = r := by simp [tallied, changed, failures]
    rw [List.foldlM_cons, answer_bind, worldAfter_bind, answer_addUpdate, worldAfter_addUpdate, ha,
      hw, hr]
    exact ih hus

end

end TypeLoom.Plugins
