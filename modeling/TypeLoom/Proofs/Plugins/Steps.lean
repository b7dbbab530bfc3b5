import TypeLoom.Proofs.Plugins.Configuration
import TypeLoom.Proofs.Plugins.Repetition

/-!
# Steps that are done again

A step of a run of the generator's own plugins, seen from the tree at the end of the run. Main
statement: steps that are done again there are done again one after the other; a phase that works on
files is, if each of its plugins repeats what it did, and so are the steps that do not depend on files.
-/

namespace TypeLoom.Plugins

open Files Files.Tree Pipeline Collected
open ResolverModule (Parser)

/-! ### Phases that work on files -/

section

variable {act : LoadedPlugin (StateM Tree) → Action (StateM Tree) Report}
  {l : LoadedPlugin (StateM Tree)} {ls : List (LoadedPlugin (StateM Tree))} {t₀ T t : Tree}
  {S : Tree → Prop} {P : Report → Prop} {rs : List Report}

theorem gather_ok (h : (gather act (l :: ls) t).1 = .ok rs) :
    ∃ r rest, rs = r :: rest ∧ answer (act l).run t = .ok r ∧
      (gather act ls (worldAfter (act l).run t)).1 = .ok rest ∧
      (gather act (l :: ls) t).2 = (gather act ls (worldAfter (act l).run t)).2 := by
  rw [gather] at h ⊢
  cases ha : answer (act l).run t with
  | error e =>
    rw [ha] at h
    cases h
  | ok r =>
    rw [ha] at h
    dsimp only at h ⊢
    cases hrest : (gather act ls (worldAfter (act l).run t)).1 with
    | error e =>
      rw [hrest] at h
      cases h
    | ok rest =>
      rw [hrest] at h
      cases h
      exact ⟨r, rest, rfl, rfl, rfl, rfl⟩

/-- A report was made by one of the plugins. -/
theorem exists_of_mem_gather (h : (gather act ls t).1 = .ok rs) {r : Report} (hr : r ∈ rs) :
    ∃ l ∈ ls, ∃ t', answer (act l).run t' = .ok r := by
  induction ls generalizing t rs with
  | nil =>
    cases h
    cases hr
  | cons l ls ih =>
    obtain ⟨r', rest, rfl, ha, hrest, -⟩ := gather_ok h
    rcases List.mem_cons.mp hr with rfl | hmem
    · exact ⟨l, List.mem_cons_self, t, ha⟩
    · obtain ⟨k, hk, h⟩ := ih hrest hmem
      exact ⟨k, List.mem_cons_of_mem l hk, h⟩

/-- Where plugins fail, one of them failed. -/
theorem exists_of_gather_error {e : Failure} (h : (gather act ls t).1 = .error e) :
    ∃ l ∈ ls, ∃ t', answer (act l).run t' = .error e := by
  induction ls generalizing t with
  | nil => cases h
  | cons l ls ih =>
    rw [gather] at h
    cases ha : answer (act l).run t with
    | error e' =>
      rw [ha] at h
      cases h
      exact ⟨l, List.mem_cons_self, t, ha⟩
    | ok r =>
      rw [ha] at h
      dsimp only at h
      cases hrest : (gather act ls (worldAfter (act l).run t)).1 with
      | error e' =>
        rw [hrest] at h
        cases h
        obtain ⟨k, hk, hfails⟩ := ih hrest
        exact ⟨k, List.mem_cons_of_mem l hk, hfails⟩
      | ok rest =>
        rw [hrest] at h
        cases h

theorem writes_gather (hwrites : ∀ l ∈ ls, Restrained (act l)) (hs : t.Sound)
    (h : (gather act ls t).1 = .ok rs) (hT : Later (gather act ls t).2 T) :
    Writes T (rs.flatMap (·.writtenFiles)) t (gather act ls t).2 := by
  induction ls generalizing t rs with
  | nil =>
    cases h
    exact .refl hs T []
  | cons l ls ih =>
    obtain ⟨hl, hls⟩ := List.forall_mem_cons.mp hwrites
    obtain ⟨r, rest, rfl, ha, hrest, hworld⟩ := gather_ok h
    rw [hworld] at hT ⊢
    have htail := ih hls (hl _ t r hs ha (.refl _)).sound hrest hT
    exact (hl T t r hs ha (htail.later.trans hT)).trans htail

/-- What a plugin answered, it answered in a tree that the others came to and went on from. -/
theorem answer_of_gather (hwrites : ∀ l ∈ ls, Restrained (act l)) (hs : t.Sound)
    (h : (gather act ls t).1 = .ok rs) (hl : l ∈ ls) :
    ∃ t', ∃ r ∈ rs, answer (act l).run t' = .ok r ∧ ∀ T, Later (gather act ls t).2 T →
      Writes T (rs.flatMap (·.writtenFiles)) t t' ∧
        Writes T (rs.flatMap (·.writtenFiles)) t' (gather act ls t).2 := by
  induction ls generalizing t rs with
  | nil => cases hl
  | cons k ls ih =>
    obtain ⟨hk, hls⟩ := List.forall_mem_cons.mp hwrites
    obtain ⟨r, rest, rfl, ha, hrest, hworld⟩ := gather_ok h
    rcases List.mem_cons.mp hl with rfl | hmem
    · exact ⟨t, r, List.mem_cons_self, ha, fun T hT =>
        ⟨.refl hs T _, writes_gather hwrites hs h hT⟩⟩
    · obtain ⟨t', r', hr', ha', hlast⟩ := ih hls (hk _ t r hs ha (.refl _)).sound hrest hmem
      rw [hworld]
      refine ⟨t', r', List.mem_cons_of_mem r hr', ha', fun T hT => ?_⟩
      obtain ⟨hbefore, hafter⟩ := hlast T hT
      have hfirst := hk T t r hs ha ((hbefore.later.trans hafter.later).trans hT)
      exact ⟨hfirst.trans hbefore, hafter.mono fun q hq => List.mem_append_right _ hq⟩

/-- Plugins that act one after the other and of which each repeats what it did. -/
theorem gather_again (hwrites : ∀ l ∈ ls, Restrained (act l))
    (hact : ∀ l ∈ ls, Repeats t₀ T S P (act l)) (hs : t.Sound) (hl : Later t₀ t)
    (h : (gather act ls t).1 = .ok rs) {rest : List Path} (hrest : Writes T rest (gather act ls t).2 T)
    (hnodup : ((rs.flatMap (·.writtenFiles) ++ rest).map T.canonical).Nodup)
    (hreports : ∀ r ∈ rs, P r) {T₁ : Tree} (hT₁ : S T₁) :
    (gather act ls T₁).1 = .ok rs ∧ S (gather act ls T₁).2 := by
  induction ls generalizing t rs T₁ with
  | nil =>
    cases h
    exact ⟨rfl, hT₁⟩
  | cons l ls ih =>
    obtain ⟨hw, hws⟩ := List.forall_mem_cons.mp hwrites
    obtain ⟨ha, has⟩ := List.forall_mem_cons.mp hact
    obtain ⟨r, rs, rfl, hr, hrs, hworld⟩ := gather_ok h
    obtain ⟨hP, hPs⟩ := List.forall_mem_cons.mp hreports
    rw [hworld] at hrest
    rw [List.flatMap_cons, List.append_assoc] at hnodup
    have hfirst := hw _ t r hs hr (.refl _)
    have htail := (writes_gather hws hfirst.sound hrs hrest.later).trans hrest
    obtain ⟨hr₁, hS⟩ := ha t r _ hs hl hr hP htail hnodup T₁ hT₁
    have hnodup' : ((rs.flatMap (·.writtenFiles) ++ rest).map T.canonical).Nodup := by
      rw [List.map_append] at hnodup
      exact hnodup.of_append_right
    obtain ⟨hrs₁, hS'⟩ := ih hws has hfirst.sound (hl.trans hfirst.later) hrs hrest hnodup' hPs hS
    rw [gather, hr₁]
    dsimp only
    rw [hrs₁]
    exact ⟨rfl, hS'⟩

end

/-! ### Steps -/

/-- A pipeline that has merged no module. -/
def unmerged (p : Pipeline (StateM Tree)) : Pipeline (StateM Tree) :=
  { p with summary := ⟨[], p.summary.writtenFiles⟩ }

theorem unmerged_eq_self {p : Pipeline (StateM Tree)} (h : p.summary = ⟨[], []⟩) :
    unmerged p = p := by
  obtain ⟨baseDir, context, plugins, moduleProblems, summary⟩ := p
  obtain rfl : summary = ⟨[], []⟩ := h
  rfl

/-- A step that is done again at the end of a run, in the tree `T`. It writes nothing but some files,
and if those are kept up to the end it does the same in all trees of which `S` holds, up to modules
that were merged, and leaves a tree of which `S'` holds. -/
structure Redone (T : Tree) (S S' : Tree → Prop) (files : List Path)
    (x : Running (StateM Tree) Unit) (p : Pipeline (StateM Tree)) (t : Tree)
    (q : Pipeline (StateM Tree)) (v : Tree) : Prop where
  done : exec x p t = ⟨.ok (), q, v⟩
  writes : Later v T → Writes T files t v
  again : ∀ rest, Writes T rest v T → ((files ++ rest).map T.canonical).Nodup →
    ∀ T₁, S T₁ → ∃ T₂, exec x (unmerged p) T₁ = ⟨.ok (), unmerged q, T₂⟩ ∧ S' T₂

section

variable {T t v w : Tree} {S S' S'' : Tree → Prop} {files more : List Path}
  {x y : Running (StateM Tree) Unit} {p q r : Pipeline (StateM Tree)}

theorem exec_bind_ok (h : exec (x >>= fun _ => y) p t = ⟨.ok (), r, w⟩) :
    ∃ q v, exec x p t = ⟨.ok (), q, v⟩ ∧ exec y q v = ⟨.ok (), r, w⟩ := by
  rw [exec_bind] at h
  rcases hx : exec x p t with ⟨_ | _, q, v⟩
  · rw [hx] at h
    cases h
  · rw [hx] at h
    exact ⟨q, v, rfl, h⟩

theorem exec_next (h : exec x p t = ⟨.ok (), q, v⟩) :
    exec (x >>= fun _ => y) p t = exec y q v := by
  rw [exec_bind, h, next_ok]

/-- Steps that are done again, one after the other. -/
theorem Redone.bind (hx : Redone T S S' files x p t q v) (hy : Redone T S' S'' more y q v r w) :
    Redone T S S'' (files ++ more) (x >>= fun _ => y) p t r w where
  done := (exec_next hx.done).trans hy.done
  writes hw := by
    have hlast := hy.writes hw
    exact (hx.writes (hlast.later.trans hw)).trans hlast
  again rest hrest hnodup T₁ hT₁ := by
    have hlast := (hy.writes hrest.later).trans hrest
    rw [List.append_assoc] at hnodup
    obtain ⟨T₂, hx₂, hS'⟩ := hx.again _ hlast hnodup T₁ hT₁
    rw [List.map_append] at hnodup
    obtain ⟨T₃, hy₃, hS''⟩ := hy.again rest hrest hnodup.of_append_right T₂ hS'
    exact ⟨T₃, (exec_next hx₂).trans hy₃, hS''⟩

/-- A step that does not depend on files is done again. -/
theorem redone_of_still (hs : t.Sound) (h : exec x p t = ⟨.ok (), q, t⟩)
    (hagain : ∀ T₁, exec x (unmerged p) T₁ = ⟨.ok (), unmerged q, T₁⟩) :
    Redone T S S [] x p t q t where
  done := h
  writes _ := .refl hs T []
  again _ _ _ T₁ hT₁ := ⟨T₁, hagain T₁, hT₁⟩

theorem Redone.weaken (h : Redone T S S' [] x p t q v) (files : List Path) :
    Redone T S S' files x p t q v where
  done := h.done
  writes hv := (h.writes hv).mono fun _ hq => absurd hq List.not_mem_nil
  again rest hrest hnodup := by
    rw [List.map_append] at hnodup
    exact h.again rest hrest hnodup.of_append_right

theorem Redone.strengthen (h : Redone T S S' files x p t q v) (hS : ∀ T₁, S'' T₁ → S T₁) :
    Redone T S'' S' files x p t q v where
  done := h.done
  writes := h.writes
  again rest hrest hnodup T₁ hT₁ := h.again rest hrest hnodup T₁ (hS T₁ hT₁)

theorem exec_checkpoint_ok (h : exec checkpoint p t = ⟨.ok (), q, v⟩) :
    p.context.problems = [] ∧ q = p ∧ v = t := by
  rw [exec_checkpoint] at h
  split at h
  · rename_i hproblems
    cases h
    exact ⟨hproblems, rfl, rfl⟩
  · cases h

theorem redone_checkpoint (hs : t.Sound) (h : p.context.problems = []) :
    Redone T S S [] checkpoint p t p t := by
  refine redone_of_still hs ((exec_checkpoint p t).trans (if_pos h)) fun T₁ => ?_
  exact (exec_checkpoint (unmerged p) T₁).trans (if_pos h)

theorem exec_moduleCheckpoint_ok (h : exec moduleCheckpoint p t = ⟨.ok (), q, v⟩) :
    p.moduleProblems = [] ∧ q = p ∧ v = t := by
  rw [exec_moduleCheckpoint] at h
  split at h
  · rename_i hproblems
    cases h
    exact ⟨hproblems, rfl, rfl⟩
  · cases h

theorem redone_moduleCheckpoint (hs : t.Sound) (h : p.moduleProblems = []) :
    Redone T S S [] moduleCheckpoint p t p t := by
  refine redone_of_still hs ((exec_moduleCheckpoint p t).trans (if_pos h)) fun T₁ => ?_
  exact (exec_moduleCheckpoint (unmerged p) T₁).trans (if_pos h)

theorem redone_configure [Parser] (h : Underway p t) (hok : exec configure p t = ⟨.ok (), q, v⟩) :
    v = t ∧ Redone T S S [] configure p t q t ∧ entries q.plugins = entries p.plugins ∧
      q.context.document = p.context.document ∧ q.summary = p.summary ∧
      Configured p.baseDir p.context.settings.schemaInput q.plugins q.context := by
  obtain ⟨r, hr, hentries, hdocument, hconfigured⟩ :=
    configureAll_eq p.baseDir h.builtIn p.context
  have hexec : exec configure p t =
      ⟨r.1, { p with plugins := r.2.1, context := r.2.2 }, t⟩ := by
    rw [exec_configure, hr]
    rfl
  have hagain : ∀ T₁, exec configure (unmerged p) T₁ =
      ⟨r.1, unmerged { p with plugins := r.2.1, context := r.2.2 }, T₁⟩ := by
    intro T₁
    rw [exec_configure]
    show (let r := answer (configureAll p.baseDir p.plugins p.context) T₁
      (⟨r.1, { unmerged p with plugins := r.2.1, context := r.2.2 },
        worldAfter (configureAll p.baseDir p.plugins p.context) T₁⟩ : Result Tree Unit)) = _
    rw [hr]
    rfl
  rw [hok] at hexec
  obtain ⟨ho, rfl, rfl⟩ := Result.mk.inj hexec
  refine ⟨rfl, redone_of_still h.sound hok fun T₁ => ?_, hentries, hdocument, rfl,
    hconfigured ho.symm⟩
  rw [hagain, ← ho]

theorem unmerged_foldl_apply {rs : List Report} (h : ∀ r ∈ rs, r.mergedModules = [])
    (p : Pipeline (StateM Tree)) : rs.foldl apply (unmerged p) = unmerged (rs.foldl apply p) := by
  induction rs generalizing p with
  | nil => rfl
  | cons r rs ih =>
    obtain ⟨hr, hrs⟩ := List.forall_mem_cons.mp h
    have hfirst : apply (unmerged p) r = unmerged (p.apply r) := by
      rw [unmerged, unmerged, apply, apply, hr]
      rfl
    rw [List.foldl_cons, List.foldl_cons, hfirst, ih hrs]

theorem addDocument_addProblems (c : Context) (ps : List Schema.Problem) (d : Schema.Document) :
    (c.addProblems ps).addDocument d = (c.addDocument d).addProblems ps := by
  obtain ⟨settings, _ | e, _⟩ := c <;> rfl

/-- What reports say of a schema, taken over all at once. -/
theorem context_foldl_apply (rs : List Report) (p : Pipeline (StateM Tree)) :
    (rs.foldl apply p).context =
      ((rs.flatMap (·.documents)).foldl Context.addDocument p.context).addProblems
        (rs.flatMap (·.problems)) := by
  induction rs generalizing p with
  | nil => exact (congrArg (fun ps => { p.context with problems := ps }) (List.append_nil _)).symm
  | cons r rs ih =>
    rw [List.foldl_cons, ih, List.flatMap_cons, List.flatMap_cons, List.foldl_append]
    show ((rs.flatMap (·.documents)).foldl Context.addDocument
      ((r.documents.foldl Context.addDocument p.context).addProblems r.problems)).addProblems _ = _
    rw [List.foldl_hom (fun c : Context => c.addProblems r.problems)
      fun c d => addDocument_addProblems c r.problems d]
    exact congrArg (fun ps => { Context.addProblems _ [] with problems := ps })
      (List.append_assoc _ _ _)

theorem settings_foldl_addDocument (ds : List Schema.Document) (c : Context) :
    (ds.foldl Context.addDocument c).settings = c.settings := by
  induction ds generalizing c with
  | nil => rfl
  | cons d ds ih =>
    rw [List.foldl_cons, ih, Context.addDocument]
    split <;> rfl

theorem settings_foldl_apply (rs : List Report) (p : Pipeline (StateM Tree)) :
    (rs.foldl apply p).context.settings = p.context.settings := by
  rw [context_foldl_apply]
  exact settings_foldl_addDocument _ p.context

theorem document_foldl_apply (rs : List Report) (p : Pipeline (StateM Tree)) :
    (rs.foldl apply p).context.document =
      ((rs.flatMap (·.documents)).foldl Context.addDocument p.context).document := by
  rw [context_foldl_apply]
  rfl

theorem gather_of_filePhase {phase : Phase}
    {act : Phases (StateM Tree) → Context → Action (StateM Tree) Report}
    (h : exec (filePhase phase act) p t = ⟨.ok (), q, v⟩) :
    ∃ rs, (gather (fun l => act l.phases p.context) (p.participants phase) t).1 = .ok rs ∧
      (gather (fun l => act l.phases p.context) (p.participants phase) t).2 = v ∧
      rs.foldl apply p = q := by
  rw [exec_filePhase] at h
  rcases hasked : gather (fun l => act l.phases p.context) (p.participants phase) t with
    ⟨e | rs, v'⟩
  · rw [hasked] at h
    cases h
  · rw [hasked] at h
    cases h
    exact ⟨rs, rfl, rfl, rfl⟩

/-- A phase that works on files writes those that it reports. -/
theorem writes_filePhase {phase : Phase}
    {act : Phases (StateM Tree) → Context → Action (StateM Tree) Report} (hs : t.Sound)
    (hwrites : ∀ l ∈ p.participants phase, Restrained (act l.phases p.context))
    (hok : exec (filePhase phase act) p t = ⟨.ok (), q, v⟩) :
    ∃ files, q.summary.writtenFiles = p.summary.writtenFiles ++ files ∧
      ∀ T, Later v T → Writes T files t v := by
  obtain ⟨rs, hrs, rfl, rfl⟩ := gather_of_filePhase hok
  exact ⟨_, foldl_apply_eq (·.summary.writtenFiles) (·.writtenFiles) (fun _ _ => rfl) rs p,
    fun T => writes_gather hwrites hs hrs⟩

/-- A phase that works on files and in which every plugin repeats what it did. -/
theorem redone_filePhase {phase : Phase}
    {act : Phases (StateM Tree) → Context → Action (StateM Tree) Report} {P : Report → Prop}
    (hs : t.Sound) (hok : exec (filePhase phase act) p t = ⟨.ok (), q, v⟩)
    (hmild : ∀ l ∈ p.participants phase, Mild (act l.phases p.context))
    (hwrites : ∀ l ∈ p.participants phase, Restrained (act l.phases p.context))
    (hact : ∀ l ∈ p.participants phase, Repeats t T S P (act l.phases p.context))
    (hreports : ∀ rs, (gather (fun l => act l.phases p.context) (p.participants phase) t).1 =
      .ok rs → ∀ r ∈ rs, P r) :
    ∃ files, Redone T S S files (filePhase phase act) p t q v ∧
      q.summary.writtenFiles = p.summary.writtenFiles ++ files ∧
      q.context.settings = p.context.settings ∧ Writes v files t v := by
  obtain ⟨rs, hrs, hv, rfl⟩ := gather_of_filePhase hok
  have hmerged := (gather_mild _ hmild hs).2 rs hrs
  refine ⟨rs.flatMap (·.writtenFiles), ⟨hok, fun hT => ?_, fun rest hrest hnodup T₁ hT₁ => ?_⟩,
    foldl_apply_eq (·.summary.writtenFiles) (·.writtenFiles) (fun _ _ => rfl) rs p,
    settings_foldl_apply rs p, hv ▸ writes_gather hwrites hs hrs (.refl _)⟩
  · rw [← hv] at hT ⊢
    exact writes_gather hwrites hs hrs hT
  · rw [← hv] at hrest
    obtain ⟨hrs₁, hS⟩ :=
      gather_again hwrites hact hs (.refl t) hrs hrest hnodup (hreports rs hrs) hT₁
    refine ⟨_, ?_, hS⟩
    have hagain : gather (fun l => act l.phases (unmerged p).context)
        ((unmerged p).participants phase) T₁ = (.ok rs,
          (gather (fun l => act l.phases p.context) (p.participants phase) T₁).2) :=
      Prod.ext hrs₁ rfl
    rw [exec_filePhase, hagain]
    dsimp only
    rw [unmerged_foldl_apply fun r hr => (hmerged r hr).1]

/-- Collecting a document is done again. -/
theorem redone_collectAndValidate [Parser] (h : Underway p t)
    (hok : exec collectAndValidate p t = ⟨.ok (), q, v⟩) :
    v = t ∧ Redone T S S [] collectAndValidate p t q t ∧ Retains p.context q.context ∧
      q.summary = p.summary ∧ ∃ d, p.context.document = some d := by
  have hexec := hok
  rw [exec_collectAndValidate] at hexec
  cases hd : p.context.document with
  | none =>
    rw [hd] at hexec
    cases hexec
  | some d =>
    obtain ⟨c, hc, hretains⟩ := collecting_eq h.builtIn d
    rw [hd] at hexec
    dsimp only at hexec
    rw [hc] at hexec
    cases hexec
    refine ⟨rfl, redone_of_still h.sound hok fun T₁ => ?_, hretains, rfl, d, rfl⟩
    have hc' : collecting (unmerged p) d = pure c := hc
    have hd' : (unmerged p).context.document = some d := hd
    rw [exec_collectAndValidate, hd']
    dsimp only
    rw [hc']
    rfl

end

end TypeLoom.Plugins
