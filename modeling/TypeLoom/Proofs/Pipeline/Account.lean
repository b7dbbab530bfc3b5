import TypeLoom.Proofs.Pipeline.Gates

/-!
# What a successful run accounts for

Reports are taken over as a whole. Main statement: the summary of a successful first run lists the
files of all reports in the order of calls, and no report before the gate had a problem. Behind the
gate it is only resolver modules that are asked about: problems found there stay in the context of a
run that succeeds, and a dry run, which never comes that far, leaves failed modules pending.
-/

namespace TypeLoom.Pipeline

open Collected

variable {W α β : Type}

/-- The reports of some calls. -/
def reports (made : List Call) : List Report := made.filterMap (·.report)

theorem reports_append (made more : List Call) :
    reports (made ++ more) = reports made ++ reports more := List.filterMap_append

theorem reports_eq_nil {made : List Call} (h : Silent made) : reports made = [] :=
  List.filterMap_eq_nil_iff.2 h

theorem reports_of_map_eq {made : List Call} {rs : List Report}
    (h : made.map Call.report = rs.map some) : reports made = rs := by
  calc reports made = (made.map Call.report).filterMap id := by
        rw [List.filterMap_map]
        rfl
    _ = rs := by
        rw [h, List.filterMap_map]
        exact List.filterMap_some

/-! ### What reports leave in a pipeline -/

theorem problems_foldl_addDocument (ds : List Schema.Document) (c : Context) :
    (ds.foldl Context.addDocument c).problems = c.problems := by
  induction ds generalizing c with
  | nil => rfl
  | cons d ds ih =>
    refine (ih _).trans ?_
    unfold Context.addDocument
    split <;> rfl

theorem problems_apply (p : Pipeline (StateM W)) (r : Report) :
    (p.apply r).context.problems = p.context.problems ++ r.problems :=
  congrArg (· ++ r.problems) (problems_foldl_addDocument r.documents p.context)

/-- A field of a pipeline to which each report adds its part. -/
theorem foldl_apply_eq {β : Type} (field : Pipeline (StateM W) → List β) (part : Report → List β)
    (h : ∀ p r, field (p.apply r) = field p ++ part r) (rs : List Report)
    (p : Pipeline (StateM W)) : field (rs.foldl apply p) = field p ++ rs.flatMap part := by
  induction rs generalizing p with
  | nil => simp
  | cons r rs ih => rw [List.foldl_cons, ih, h, List.flatMap_cons, List.append_assoc]

/-- A pipeline after calls, as far as their reports decide. -/
structure Took (p : Pipeline (StateM W)) (made : List Call) (q : Pipeline (StateM W)) : Prop where
  problems : (p.context.problems ++ (reports made).flatMap (·.problems)).Sublist q.context.problems
  modules : q.moduleProblems = p.moduleProblems ++ (reports made).flatMap (·.moduleProblems)
  merged : q.summary.mergedModules =
    p.summary.mergedModules ++ (reports made).flatMap (·.mergedModules)
  written : q.summary.writtenFiles =
    p.summary.writtenFiles ++ (reports made).flatMap (·.writtenFiles)

theorem Took.trans {p q r : Pipeline (StateM W)} {made more : List Call} (h : Took p made q)
    (h' : Took q more r) : Took p (made ++ more) r := by
  constructor
  · rw [reports_append, List.flatMap_append, ← List.append_assoc]
    exact (h.problems.append_right _).trans h'.problems
  · rw [h'.modules, h.modules, reports_append, List.flatMap_append, List.append_assoc]
  · rw [h'.merged, h.merged, reports_append, List.flatMap_append, List.append_assoc]
  · rw [h'.written, h.written, reports_append, List.flatMap_append, List.append_assoc]

/-- Calls without reports, and what else a step may do to a pipeline. -/
theorem took_of_silent {p q : Pipeline (StateM W)} {made : List Call} (hs : Silent made)
    (hg : p.context.Grows q.context) (hm : q.moduleProblems = p.moduleProblems)
    (hq : q.summary = p.summary) : Took p made q := by
  constructor <;> rw [reports_eq_nil hs, List.flatMap_nil, List.append_nil]
  · exact hg.problems.sublist
  · exact hm
  · rw [hq]
  · rw [hq]

theorem Applies.problems_eq {p q : Pipeline (StateM W)} {made : List Call} (h : Applies p made q) :
    q.context.problems = p.context.problems ++ (reports made).flatMap (·.problems) := by
  obtain ⟨rs, hrs, rfl⟩ := h
  rw [reports_of_map_eq hrs]
  exact foldl_apply_eq (·.context.problems) (·.problems) problems_apply rs p

theorem Applies.took {p q : Pipeline (StateM W)} {made : List Call} (h : Applies p made q) :
    Took p made q := by
  have hproblems := h.problems_eq
  obtain ⟨rs, hrs, rfl⟩ := h
  refine ⟨hproblems ▸ .refl _, ?_, ?_, ?_⟩ <;> rw [reports_of_map_eq hrs]
  · exact foldl_apply_eq (·.moduleProblems) (·.moduleProblems) (fun _ _ => rfl) rs p
  · exact foldl_apply_eq (·.summary.mergedModules) (·.mergedModules) (fun _ _ => rfl) rs p
  · exact foldl_apply_eq (·.summary.writtenFiles) (·.writtenFiles) (fun _ _ => rfl) rs p

/-! ### Steps that account for their reports -/

/-- A step that, if it succeeds, has taken over the reports of its calls. -/
def Accounts (x : Running (StateM W) α) (x' : Running (StateM (Journal W)) α) : Prop :=
  ∀ p w a, p.Appending → (exec x p w).outcome = .ok a →
    Took p (calls x' p w) (exec x p w).pipeline

theorem Accounts.bind {x : Running (StateM W) α} {x' : Running (StateM (Journal W)) α}
    {f : α → Running (StateM W) β} {f' : α → Running (StateM (Journal W)) β}
    {phases later : List Phase} (hx : Accounts x x') (hf : ∀ a, Accounts (f a) (f' a))
    (hg : Advancing x) (hfx : Follows phases x x') (hff : ∀ a, Follows later (f a) (f' a)) :
    Accounts (x >>= f) (x' >>= f') := by
  intro p w b hp hb
  obtain ⟨a, ha, hnext, hcalls⟩ := hfx.bind_ok hff hb
  rw [hnext] at hb ⊢
  rw [hcalls]
  exact (hx p w a hp ha).trans (hf a _ _ b (hg p w hp).appending hb)

theorem accounts_configure : Accounts (configure : Running (StateM W) Unit) configure := by
  intro p w _ hp _
  refine took_of_silent (silent_configure p w) (advancing_configure p w hp).context ?_ ?_ <;>
    rw [exec_configure]

theorem accounts_collectAndValidate :
    Accounts (collectAndValidate : Running (StateM W) Unit) collectAndValidate := by
  intro p w _ hp _
  refine took_of_silent (silent_collectAndValidate p w)
    (advancing_collectAndValidate p w hp).context ?_ ?_ <;>
  · rw [exec_collectAndValidate]
    split <;> rfl

theorem accounts_filePhase {phase : Phase}
    {act : Phases (StateM W) → Context → Action (StateM W) Report}
    {act' : Phases (StateM (Journal W)) → Context → Action (StateM (Journal W)) Report}
    (hact : Notes phase act act') : Accounts (filePhase phase act) (filePhase phase act') :=
  fun _ _ _ _ h => (applies_filePhase hact h).took

theorem calls_checkpoint (p : Pipeline (StateM W)) (w : W) : calls checkpoint p w = [] :=
  List.map_eq_nil_iff.1 (List.prefix_nil.1 (follows_checkpoint p w).ordered)

theorem accounts_checkpoint : Accounts (checkpoint : Running (StateM W) Unit) checkpoint := by
  intro p w _ hp _
  refine took_of_silent ?_ (advancing_checkpoint p w hp).context ?_ ?_
  · rw [calls_checkpoint]
    simp [Silent]
  all_goals
    rw [exec_checkpoint]
    split <;> rfl

theorem accounts_untilFirstCheckpoint :
    Accounts (untilFirstCheckpoint : Running (StateM W) Unit) untilFirstCheckpoint :=
  accounts_configure.bind
    (fun _ => (accounts_filePhase notes_initial).bind (fun _ => accounts_collectAndValidate)
      (advancing_filePhase _ _) (follows_filePhase notes_initial)
      fun _ => follows_collectAndValidate)
    advancing_configure follows_configure
    fun _ => (follows_filePhase notes_initial).bind fun _ => follows_collectAndValidate

theorem accounts_untilSecondCheckpoint :
    Accounts (untilSecondCheckpoint : Running (StateM W) Unit) untilSecondCheckpoint :=
  accounts_untilFirstCheckpoint.bind
    (fun _ => accounts_checkpoint.bind (fun _ => accounts_filePhase notes_collected)
      advancing_checkpoint follows_checkpoint fun _ => follows_filePhase notes_collected)
    advancing_untilFirstCheckpoint follows_untilFirstCheckpoint
    fun _ => follows_checkpoint.bind fun _ => follows_filePhase notes_collected

/-! ### Behind the gate -/

theorem calls_afterFinalized (p : Pipeline (StateM W)) (w : W) : calls afterFinalized p w = [] :=
  List.map_eq_nil_iff.1 (List.prefix_nil.1 (follows_afterFinalized p w).ordered)

/-- A run that comes to its end reports the modules that are pending. -/
theorem exec_afterFinalized (p : Pipeline (StateM W)) (w : W) :
    exec afterFinalized p w = if p.moduleProblems = [] then ⟨.ok p.summary, p, w⟩
      else ⟨.error (.modules p.moduleProblems), { p with moduleProblems := [] }, w⟩ := by
  rw [afterFinalized, exec_bind, exec_moduleCheckpoint]
  split <;> rfl

theorem exec_afterFinalized_ok {p : Pipeline (StateM W)} {w : W} {s : Summary}
    (h : (exec afterFinalized p w).outcome = .ok s) :
    p.moduleProblems = [] ∧ s = p.summary ∧ (exec afterFinalized p w).pipeline = p := by
  rw [exec_afterFinalized] at h ⊢
  split at h
  · rename_i hm
    rw [if_pos hm]
    cases h
    exact ⟨hm, rfl, rfl⟩
  · cases h

/-- Behind the gate reports are taken over as they come. -/
theorem applies_conclusion {p : Pipeline (StateM W)} {w : W} {s : Summary}
    (h : (exec conclusion p w).outcome = .ok s) :
    Applies p (calls conclusion p w) (exec conclusion p w).pipeline ∧
      (exec conclusion p w).pipeline.moduleProblems = [] ∧
      s = (exec conclusion p w).pipeline.summary := by
  simp only [conclusion_eq_finalized] at h ⊢
  obtain ⟨⟨⟩, ht, hx, hcalls⟩ := follows_transform.bind_ok
    (fun _ => (follows_filePhase notes_finalized).bind fun _ => follows_afterFinalized) h
  rw [hcalls, hx]
  rw [hx] at h
  obtain ⟨⟨⟩, hf, hx, hcalls⟩ :=
    (follows_filePhase notes_finalized).bind_ok (fun _ => follows_afterFinalized) h
  rw [hcalls, hx, calls_afterFinalized, List.append_nil]
  rw [hx] at h
  obtain ⟨hm, hs, hpipeline⟩ := exec_afterFinalized_ok h
  rw [hpipeline]
  exact ⟨(applies_transform ht).trans (applies_filePhase notes_finalized hf), hm, hs⟩

/-! ### First runs -/

theorem create_eq_ok {baseDir : Path} {dry : Bool} {plugins : List (LoadedPlugin (StateM W))}
    {p : Pipeline (StateM W)} (h : create baseDir dry plugins = .ok p) :
    p.plugins = plugins ∧ p.context.settings.dryRun = dry ∧ p.context.problems = [] ∧
      p.moduleProblems = [] ∧ p.summary = ⟨[], []⟩ := by
  unfold create at h
  split at h
  · cases h
  · cases h
    exact ⟨rfl, rfl, rfl, rfl, rfl⟩

/-- Calls behind the gate. -/
def lateCalls (made : List Call) : List Call := made.filter (·.phase ∈ Phase.late)

section

variable {p : Pipeline (StateM W)} {w : W} {s : Summary}

theorem lateCalls_untilSecondCheckpoint : lateCalls (calls untilSecondCheckpoint p w) = [] := by
  refine List.filter_eq_nil_iff.2 fun c hc => ?_
  have he : c.phase ∈ Phase.early := (follows_untilSecondCheckpoint p w).phase_mem hc
  revert he
  cases c.phase <;> decide

theorem lateCalls_conclusion : lateCalls (calls conclusion p w) = calls conclusion p w :=
  List.filter_eq_self.2 fun _ hc => decide_eq_true ((follows_conclusion p w).phase_mem hc)

/-- What a run that succeeds has taken over. -/
theorem took_phases (hp : p.Appending) (hok : (exec phases p w).outcome = .ok s) :
    Clean untilSecondCheckpoint p w ∧ Took p (calls phases p w) (exec phases p w).pipeline ∧
      s = (exec phases p w).pipeline.summary ∧
      (exec phases p w).pipeline.context.problems =
        (reports (lateCalls (calls phases p w))).flatMap (·.problems) ∧
      (p.context.settings.dryRun = false → (exec phases p w).pipeline.moduleProblems = []) := by
  have hdry := (advancing_untilSecondCheckpoint p w hp).context.dryRun
  by_cases h : Opens p w
  · obtain ⟨hc, -⟩ := id h
    have hx : exec phases p w = exec conclusion (exec untilSecondCheckpoint p w).pipeline
        (exec untilSecondCheckpoint p w).world := by
      rw [exec_phases_of_opens h, exec_bind, Result.next, hc.1]
    have htook := accounts_untilSecondCheckpoint p w () hp hc.1
    rw [hx] at hok ⊢
    obtain ⟨happlies, hm, hs⟩ := applies_conclusion hok
    rw [(makes_phases_of_opens h).calls_eq, happlies.problems_eq, hc.2, List.nil_append, lateCalls,
      List.filter_append]
    refine ⟨hc, htook.trans happlies.took, hs, ?_, fun _ => hm⟩
    rw [← lateCalls, ← lateCalls, lateCalls_untilSecondCheckpoint, lateCalls_conclusion,
      List.nil_append]
  · have hx := exec_phases_of_not_opens h
    rw [hx] at hok ⊢
    obtain ⟨ho, hc, hs⟩ := Result.shut_eq_ok hok
    rw [(makes_phases_of_not_opens hp h).calls_eq, lateCalls_untilSecondCheckpoint]
    refine ⟨⟨ho, hc⟩, accounts_untilSecondCheckpoint p w () hp ho, hs, hc, fun hd => ?_⟩
    exact absurd ⟨⟨ho, hc⟩, hdry.trans hd⟩ h

end

/-- A first run that succeeds: what its summary lists, which of its reports had no problems, and
what the pipeline keeps of those that had. -/
theorem first_run_accounts (baseDir : Path) (dry : Bool) (plugins : List (LoadedPlugin (StateM W)))
    (p : Pipeline (StateM W)) (hcreate : create baseDir dry plugins = .ok p) (hp : p.Appending)
    (w : W) (s : Summary) (hok : (exec phases p w).outcome = .ok s) :
    s = ⟨(reports (calls phases p w)).flatMap (·.mergedModules),
      (reports (calls phases p w)).flatMap (·.writtenFiles)⟩ ∧
    (∀ c ∈ calls phases p w, c.phase ∉ Phase.late → ∀ r, c.report = some r → r.problems = []) ∧
    (exec phases p w).pipeline.context.problems =
      (reports (lateCalls (calls phases p w))).flatMap (·.problems) ∧
    (exec phases p w).pipeline.moduleProblems =
      (if dry then (reports (calls phases p w)).flatMap (·.moduleProblems) else []) ∧
    (dry = false → ∀ r ∈ reports (calls phases p w), r.moduleProblems = []) := by
  obtain ⟨-, hdry, hproblems, hmodules, hsummary⟩ := create_eq_ok hcreate
  obtain ⟨hclean, htook, hs, hlate, hpending⟩ := took_phases hp hok
  have hm := htook.modules
  have hmerged := htook.merged
  have hwritten := htook.written
  rw [hmodules, List.nil_append] at hm
  rw [hsummary, List.nil_append] at hmerged hwritten
  refine ⟨?_, fun c hc hl r hr => ?_, hlate, ?_, fun hd r hr => ?_⟩
  · rw [hs, ← hmerged, ← hwritten]
  · -- The problems of a report before the gate are among those at the second checkpoint.
    have htook' := accounts_untilSecondCheckpoint p w () hp hclean.1
    have hsub := htook'.problems
    rw [hclean.2, hproblems, List.nil_append, List.sublist_nil, List.flatMap_eq_nil_iff] at hsub
    exact hsub r (List.mem_filterMap.2 ⟨c, mem_calls_untilSecondCheckpoint hp hc hl, hr⟩)
  · cases dry with
    | true => exact hm
    | false => exact hpending hdry
  · rw [hpending (hdry.trans hd)] at hm
    exact List.flatMap_eq_nil_iff.1 hm.symm r hr

/-- The phases of a plugin that finds a problem only when it transforms. -/
def belatedPhases : Phases (StateM Unit) :=
  { Phases.idle (StateM Unit) with
    initial := fun _ => return .ofDocument .empty
    collected := fun _ => return .ofWritten [⟨"a.d.ts"⟩]
    transform := fun _ => pure
      { Report.ofProblems [.unreadable ⟨"b"⟩ ⟨1, 1⟩] with mergedModules := [⟨"b.ts"⟩] } }

def belatedPlugin : LoadedPlugin (StateM Unit) :=
  ⟨⟨"belated", [.initial, .collected, .transform], [], belatedPhases,
    fun _ c => return (.ok belatedPhases, c)⟩, default, belatedPhases⟩

/-- A pipeline of one plugin, as it is created. -/
def belated : Pipeline (StateM Unit) where
  baseDir := ⟨""⟩
  context := .ofSettings Generation.Settings.empty
  plugins := [belatedPlugin]
  moduleProblems := []
  summary := ⟨[], []⟩

theorem appending_belated : belated.Appending := by
  intro l hl
  obtain rfl := List.mem_singleton.1 hl
  have hphases : AppendingPhases belatedPhases := by
    rintro w v ⟨⟩
  refine ⟨⟨fun _ _ _ => .refl, ?_⟩, hphases⟩
  rintro t c w f ⟨⟩
  exact hphases

/-- A first run can succeed though a problem was found behind the gate. -/
theorem belated_first_run_accounts :
    create ⟨""⟩ false [belatedPlugin] = .ok belated ∧ belated.Appending ∧
    (exec phases belated ()).outcome = .ok ⟨[⟨"b.ts"⟩], [⟨"a.d.ts"⟩]⟩ ∧
    (exec phases belated ()).pipeline.context.problems = [.unreadable ⟨"b"⟩ ⟨1, 1⟩] ∧
    (exec phases belated ()).pipeline.context.problems =
      (reports (lateCalls (calls phases belated ()))).flatMap (·.problems) ∧
    ∀ c ∈ calls phases belated (), c.phase ∉ Phase.late → ∀ r, c.report = some r → r.problems = [] := by
  have hcreate : create ⟨""⟩ false [belatedPlugin] = .ok belated := rfl
  have hok : (exec phases belated ()).outcome = .ok ⟨[⟨"b.ts"⟩], [⟨"a.d.ts"⟩]⟩ := rfl
  obtain ⟨-, hearly, hlate, -⟩ :=
    first_run_accounts _ _ _ belated hcreate appending_belated () _ hok
  exact ⟨hcreate, appending_belated, hok, rfl, hlate, hearly⟩

end TypeLoom.Pipeline
