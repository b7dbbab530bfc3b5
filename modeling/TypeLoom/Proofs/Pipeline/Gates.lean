import TypeLoom.Proofs.Pipeline.Schedule

/-!
# The order of phases and the gates between them

Main statement: however often a pipeline is run, the calls of each run are those of the seven phases
in their order, up to a failure or a gate. Resolver modules and what follows them are reached only in
a run that is not dry and that had no problems at either checkpoint; since problems are never taken
back, a checkpoint that has once failed closes them for good. A phase that works on files and in
which a plugin fails leaves the pipeline as it was.
-/

namespace TypeLoom.Pipeline

open Collected

variable {W : Type}

/-- The phases before the gate. -/
def Phase.early : List Phase := [configure, initial, collect, validate, collected]

/-- The phases behind the gate. -/
def Phase.late : List Phase := [transform, finalized]

section

variable {m : Type → Type} [Monad m]

/-- What is done behind the gate. -/
def conclusion : Running m Summary := do
  afterCheckpoints
  return (← get).summary

/-- What is done before a phase that works on files. -/
def before : Phase → Running m Unit
  | .initial => configure
  | .collected => do
    untilFirstCheckpoint
    checkpoint
  | .finalized => do
    untilSecondCheckpoint
    checkpoint
    transform
  | _ => return

end

section

variable {m : Type → Type} [Monad m]

/-- What is done after the first phase that works on files, up to the gate. -/
def afterInitial : Running m Unit := do
  collectAndValidate
  checkpoint
  filePhase .collected (·.collected)

/-- What is done after the last phase that works on files. -/
def afterFinalized : Running m Summary := do
  moduleCheckpoint
  return (← get).summary

variable [LawfulMonad m]

theorem untilSecondCheckpoint_eq_initial : (untilSecondCheckpoint : Running m Unit) =
    before .initial >>= fun _ => filePhase .initial (·.initial) >>= fun _ => afterInitial := by
  simp only [untilSecondCheckpoint, untilFirstCheckpoint, before, afterInitial, bind_assoc]

theorem untilSecondCheckpoint_eq_collected : (untilSecondCheckpoint : Running m Unit) =
    before .collected >>= fun _ => filePhase .collected (·.collected) >>= fun _ => pure () := by
  simp only [untilSecondCheckpoint, before, bind_assoc, bind_pure_unit]

theorem conclusion_eq_finalized : (conclusion : Running m Summary) =
    transform >>= fun _ => filePhase .finalized (·.finalized) >>= fun _ => afterFinalized := by
  simp only [conclusion, afterCheckpoints, afterFinalized, bind_assoc]

end

/-- A part of a run is done, and there is no problem. -/
def Clean (x : Running (StateM W) Unit) (p : Pipeline (StateM W)) (w : W) : Prop :=
  (exec x p w).outcome = .ok () ∧ (exec x p w).pipeline.context.problems = []

/-- A part of a run is done, and there are problems. -/
def Stopped (x : Running (StateM W) Unit) (p : Pipeline (StateM W)) (w : W) : Prop :=
  (exec x p w).outcome = .ok () ∧ (exec x p w).pipeline.context.problems ≠ []

theorem follows_untilFirstCheckpoint :
    Follows [.configure, .initial, .collect, .validate]
      (untilFirstCheckpoint : Running (StateM W) Unit) untilFirstCheckpoint :=
  follows_configure.bind fun _ => (follows_filePhase notes_initial).bind fun _ =>
    follows_collectAndValidate

theorem follows_untilSecondCheckpoint :
    Follows Phase.early (untilSecondCheckpoint : Running (StateM W) Unit) untilSecondCheckpoint :=
  follows_untilFirstCheckpoint.bind fun _ => follows_checkpoint.bind fun _ =>
    follows_filePhase notes_collected

theorem follows_conclusion :
    Follows Phase.late (conclusion : Running (StateM W) Summary) conclusion :=
  (follows_transform.bind fun _ => (follows_filePhase notes_finalized).bind fun _ =>
    follows_moduleCheckpoint).bind fun _ => follows_summary

theorem follows_afterInitial :
    Follows [.collect, .validate, .collected] (afterInitial : Running (StateM W) Unit)
      afterInitial :=
  follows_collectAndValidate.bind fun _ => follows_checkpoint.bind fun _ =>
    follows_filePhase notes_collected

theorem follows_afterFinalized :
    Follows [] (afterFinalized : Running (StateM W) Summary) afterFinalized :=
  follows_moduleCheckpoint.bind fun _ => follows_summary

/-! ### Runs with the gate open or closed -/

/-- The gate is open: there is no problem, and the run is not dry. -/
def Opens (p : Pipeline (StateM W)) (w : W) : Prop :=
  Clean untilSecondCheckpoint p w ∧
    (exec untilSecondCheckpoint p w).pipeline.context.settings.dryRun = false

theorem exec_phases_of_opens {p : Pipeline (StateM W)} {w : W} (h : Opens p w) :
    exec phases p w = exec (untilSecondCheckpoint >>= fun _ => conclusion) p w := by
  obtain ⟨⟨ho, hc⟩, hd⟩ := h
  rw [exec_phases, exec_bind, Result.concluded, Result.next]
  simp only [ho, hc, hd, if_true, Bool.false_eq_true, if_false]
  rfl

/-- How a run ends at a closed gate. -/
def Result.shut (r : Result W Unit) : Except Failure Summary :=
  match r.outcome with
  | .error e => .error e
  | .ok () => if r.pipeline.context.problems = [] then .ok r.pipeline.summary
      else .error (.schema r.pipeline.context.problems)

theorem exec_phases_of_not_opens {p : Pipeline (StateM W)} {w : W} (h : ¬ Opens p w) :
    exec phases p w = ⟨(exec untilSecondCheckpoint p w).shut,
      (exec untilSecondCheckpoint p w).pipeline, (exec untilSecondCheckpoint p w).world⟩ := by
  rw [exec_phases]
  simp only [Opens, Clean] at h
  generalize exec untilSecondCheckpoint p w = r at h ⊢
  obtain ⟨e | _, q, v⟩ := r
  · rfl
  · by_cases hq : q.context.problems = []
    · have hd : q.context.settings.dryRun = true := by simpa [hq] using h
      simp [Result.concluded, Result.shut, hq, hd]
    · simp [Result.concluded, Result.shut, hq]

theorem Result.shut_eq_ok {r : Result W Unit} {s : Summary} (h : r.shut = .ok s) :
    r.outcome = .ok () ∧ r.pipeline.context.problems = [] ∧ s = r.pipeline.summary := by
  unfold Result.shut at h
  split at h
  · cases h
  · rename_i ho
    split at h
    · rename_i hc
      cases h
      exact ⟨ho, hc, rfl⟩
    · cases h

theorem opens_observed {p : Pipeline (StateM W)} {w : W} {cs : List Call} :
    Opens p.observed ⟨cs, w⟩ ↔ Opens p w := by
  rw [Opens, Clean, (follows_untilSecondCheckpoint p w).journal]
  exact Iff.rfl

/-- The phases that a run goes through if nothing ends it. -/
def Phase.planned (dry : Bool) : List Phase := if dry then early else all

section

variable {p : Pipeline (StateM W)} {w : W}

/-- Behind an open gate calls are made after those before it. -/
theorem makes_phases_of_opens (h : Opens p w) :
    Makes Phase.all phases phases p w (calls untilSecondCheckpoint p w ++
      calls conclusion (exec untilSecondCheckpoint p w).pipeline
        (exec untilSecondCheckpoint p w).world) := by
  have hm : Makes (Phase.early ++ Phase.late) (untilSecondCheckpoint >>= fun _ => conclusion)
      (untilSecondCheckpoint >>= fun _ => conclusion) p w _ :=
    (follows_untilSecondCheckpoint p w).bind h.1.1 (follows_conclusion _ _)
  have hx := exec_phases_of_opens h
  refine ⟨fun cs => ?_, ?_, hm.ordered, ?_⟩
  · rw [exec_phases_of_opens (opens_observed.2 h), hm.journal, hx]
  · rw [hx]
    exact hm.plugins
  · rw [hx]
    exact hm.complete

/-- At a closed gate the calls end. -/
theorem makes_phases_of_not_opens (hp : p.Appending) (h : ¬ Opens p w) :
    Makes (Phase.planned p.context.settings.dryRun) phases phases p w
      (calls untilSecondCheckpoint p w) := by
  have hm := follows_untilSecondCheckpoint p w
  have hdry := (advancing_untilSecondCheckpoint p w hp).context.dryRun
  have hx := exec_phases_of_not_opens h
  refine ⟨fun cs => ?_, hx ▸ hm.plugins, hm.ordered.trans ?_, fun s hs => ?_⟩
  · rw [exec_phases_of_not_opens (mt opens_observed.1 h), hm.journal, hx]
    rfl
  · cases p.context.settings.dryRun with
    | true => exact List.prefix_rfl
    | false =>
      show p.schedule Phase.early <+: p.schedule (Phase.early ++ Phase.late)
      rw [schedule_append]
      exact List.prefix_append _ _
  · -- Only a dry run succeeds at a closed gate.
    rw [hx] at hs
    obtain ⟨ho, hc, -⟩ := Result.shut_eq_ok hs
    have hd : p.context.settings.dryRun = true := by
      rw [← hdry]
      exact eq_true_of_ne_false fun hd => h ⟨⟨ho, hc⟩, hd⟩
    rw [hd]
    exact hm.complete () ho

theorem makes_phases (hp : p.Appending) (w : W) :
    Makes (Phase.planned p.context.settings.dryRun) phases phases p w (calls phases p w) := by
  by_cases h : Opens p w
  · have hd : p.context.settings.dryRun = false :=
      (advancing_untilSecondCheckpoint p w hp).context.dryRun ▸ h.2
    have hm := makes_phases_of_opens h
    rw [hm.calls_eq, hd]
    exact hm
  · have hm := makes_phases_of_not_opens hp h
    rw [hm.calls_eq]
    exact hm

/-- A call behind the gate is made only if it is open. -/
theorem opens_of_late (hp : p.Appending) {c : Call} (hc : c ∈ calls phases p w)
    (hl : c.phase ∈ Phase.late) : Opens p w := by
  by_contra h
  rw [(makes_phases_of_not_opens hp h).calls_eq] at hc
  have he : c.phase ∈ Phase.early := (follows_untilSecondCheckpoint p w).phase_mem hc
  revert he hl
  cases c.phase <;> decide

/-- The second part of a run is only reached if there was no problem at the first checkpoint. -/
theorem clean_untilFirstCheckpoint (h : (exec untilSecondCheckpoint p w).outcome = .ok ()) :
    Clean untilFirstCheckpoint p w := by
  unfold untilSecondCheckpoint at h
  rw [exec_bind] at h
  obtain ⟨⟨⟩, ho, hx⟩ := next_eq_ok h
  rw [hx, exec_bind, exec_checkpoint] at h
  refine ⟨ho, ?_⟩
  by_contra hc
  rw [if_neg hc, next_error] at h
  cases h

/-- A document has been loaded when the first checkpoint is reached. -/
theorem loaded_untilFirstCheckpoint (hp : p.Appending)
    (h : (exec untilFirstCheckpoint p w).outcome = .ok ()) :
    (exec untilFirstCheckpoint p w).pipeline.context.document.isSome = true := by
  unfold untilFirstCheckpoint at h ⊢
  rw [exec_bind] at h ⊢
  obtain ⟨⟨⟩, -, hx⟩ := next_eq_ok h
  have hq := (advancing_configure p w hp).appending
  rw [hx] at h ⊢
  generalize (exec configure p w).pipeline = q at h hq ⊢
  generalize (exec configure p w).world = v at h ⊢
  rw [exec_bind] at h ⊢
  obtain ⟨⟨⟩, -, hx⟩ := next_eq_ok h
  replace hq := (advancing_filePhase .initial (·.initial) q v hq).appending
  rw [hx] at h ⊢
  generalize (exec (filePhase .initial (·.initial)) q v).pipeline = q at h hq ⊢
  generalize (exec (filePhase .initial (·.initial)) _ v).world = v at h ⊢
  have hgrows := (advancing_collectAndValidate q v hq).context
  rw [exec_collectAndValidate] at h hgrows ⊢
  cases hd : q.context.document with
  | none =>
    rw [hd] at h
    cases h
  | some d =>
    rw [hd] at hgrows
    exact hgrows.loaded (hd ▸ rfl)

theorem loaded_untilSecondCheckpoint (hp : p.Appending)
    (h : (exec untilSecondCheckpoint p w).outcome = .ok ()) :
    (exec untilSecondCheckpoint p w).pipeline.context.document.isSome = true := by
  have hfirst := (clean_untilFirstCheckpoint h).1
  exact (advancing_untilFirstCheckpoint.advances_bind
    (fun _ => advancing_checkpoint.bind fun _ => advancing_filePhase _ _) hp w).context.loaded
      (loaded_untilFirstCheckpoint hp hfirst)

end

/-! ### Phases that fail -/

section

variable {α : Type} {p : Pipeline (StateM W)} {w : W} {phase : Phase} {c : Call}
  {act : Phases (StateM W) → Context → Action (StateM W) Report}
  {act' : Phases (StateM (Journal W)) → Context → Action (StateM (Journal W)) Report}
  {b : Running (StateM W) Unit} {b' : Running (StateM (Journal W)) Unit} {done later : List Phase}
  {rest : Running (StateM W) α} {rest' : Running (StateM (Journal W)) α}

theorem pipeline_of_filePhase_error {e : Failure}
    (h : (exec (filePhase phase act) p w).outcome = .error e) :
    (exec (filePhase phase act) p w).pipeline = p := by
  rw [exec_filePhase] at h ⊢
  split at h
  · cases h
  · rfl

theorem Applies.report_ne_none {q : Pipeline (StateM W)} {made : List Call} (h : Applies p made q)
    (hc : c ∈ made) : c.report ≠ none := by
  obtain ⟨rs, hrs, -⟩ := h
  intro hn
  have hmem : c.report ∈ rs.map some := hrs ▸ List.mem_map_of_mem hc
  rw [hn] at hmem
  obtain ⟨r, -, hr⟩ := List.mem_map.1 hmem
  cases hr

/-- A call without a report, in a phase that works on files and comes once in a sequence of steps,
ends the sequence where the phase began. -/
theorem undone_of_report_eq_none (hact : Notes phase act act') (hb : Follows done b b')
    (hr : Follows later rest rest') (hdone : phase ∉ done) (hlater : phase ∉ later)
    (hc : c ∈ calls (b' >>= fun _ => filePhase phase act' >>= fun _ => rest') p w)
    (hphase : c.phase = phase) (hn : c.report = none) :
    (exec b p w).outcome = .ok () ∧ ∃ e,
      (exec (b >>= fun _ => filePhase phase act >>= fun _ => rest) p w).outcome = .error e ∧
      (exec (b >>= fun _ => filePhase phase act >>= fun _ => rest) p w).pipeline =
        (exec b p w).pipeline := by
  have hf := follows_filePhase hact
  have hearly : c ∉ calls b' p w := fun h => hdone (hphase ▸ (hb p w).phase_mem h)
  cases ho : (exec b p w).outcome with
  | error e =>
    rw [hb.calls_bind_error ho] at hc
    exact absurd hc hearly
  | ok u =>
    rw [exec_bind, Result.next, ho]
    rw [hb.calls_bind (fun _ => hf.bind fun _ => hr) ho] at hc
    replace hc := (List.mem_append.1 hc).resolve_left hearly
    generalize (exec b p w).pipeline = q at hc ⊢
    generalize (exec b p w).world = v at hc ⊢
    cases hfo : (exec (filePhase phase act) q v).outcome with
    | error e =>
      refine ⟨rfl, e, ?_⟩
      rw [exec_bind, Result.next, hfo]
      exact ⟨rfl, pipeline_of_filePhase_error hfo⟩
    | ok _ =>
      rw [hf.calls_bind (fun _ => hr) hfo] at hc
      rcases List.mem_append.1 hc with hc | hc
      · exact absurd hn ((applies_filePhase hact hfo).report_ne_none hc)
      · exact absurd (hphase ▸ (hr _ _).phase_mem hc) hlater

end

/-- A phase that works on files was begun, the run failed, and nothing of the phase was applied. -/
def Undone (phase : Phase) (p : Pipeline (StateM W)) (w : W) : Prop :=
  (exec (before phase) p w).outcome = .ok () ∧ ∃ e, (exec phases p w).outcome = .error e ∧
    (exec phases p w).pipeline = (exec (before phase) p w).pipeline

section

variable {p : Pipeline (StateM W)} {w : W} {c : Call}

/-- Where the run fails before the gate, it ends there. -/
theorem exec_phases_of_error {e : Failure}
    (h : (exec untilSecondCheckpoint p w).outcome = .error e) :
    (exec phases p w).outcome = .error e ∧
      (exec phases p w).pipeline = (exec untilSecondCheckpoint p w).pipeline := by
  rw [exec_phases, Result.concluded, h]
  exact ⟨rfl, rfl⟩

/-- The calls before the gate are those of phases before the gate. -/
theorem mem_calls_untilSecondCheckpoint (hp : p.Appending) (hc : c ∈ calls phases p w)
    (hl : c.phase ∉ Phase.late) : c ∈ calls untilSecondCheckpoint p w := by
  by_cases h : Opens p w
  · rw [(makes_phases_of_opens h).calls_eq] at hc
    exact (List.mem_append.1 hc).resolve_right fun hm => hl ((follows_conclusion _ _).phase_mem hm)
  · rwa [(makes_phases_of_not_opens hp h).calls_eq] at hc

/-- What fails before the gate is undone there, so in the whole run. -/
theorem undone_of_untilSecondCheckpoint {phase : Phase}
    (h : (exec (before phase) p w).outcome = .ok () ∧ ∃ e,
      (exec untilSecondCheckpoint p w).outcome = .error e ∧
      (exec untilSecondCheckpoint p w).pipeline = (exec (before phase) p w).pipeline) :
    Undone phase p w := by
  obtain ⟨ho, e, he, hpipeline⟩ := h
  obtain ⟨he', hpipeline'⟩ := exec_phases_of_error he
  exact ⟨ho, e, he', hpipeline'.trans hpipeline⟩

theorem undone_initial (hp : p.Appending) (hc : c ∈ calls phases p w) (hphase : c.phase = .initial)
    (hn : c.report = none) : Undone .initial p w := by
  have hc' := mem_calls_untilSecondCheckpoint hp hc (by rw [hphase]; decide)
  rw [untilSecondCheckpoint_eq_initial] at hc'
  apply undone_of_untilSecondCheckpoint
  rw [untilSecondCheckpoint_eq_initial]
  exact undone_of_report_eq_none notes_initial follows_configure follows_afterInitial
    (by decide) (by decide) hc' hphase hn

theorem undone_collected (hp : p.Appending) (hc : c ∈ calls phases p w)
    (hphase : c.phase = .collected) (hn : c.report = none) : Undone .collected p w := by
  have hc' := mem_calls_untilSecondCheckpoint hp hc (by rw [hphase]; decide)
  rw [untilSecondCheckpoint_eq_collected] at hc'
  apply undone_of_untilSecondCheckpoint
  rw [untilSecondCheckpoint_eq_collected]
  exact undone_of_report_eq_none notes_collected
    (follows_untilFirstCheckpoint.bind fun _ => follows_checkpoint)
    (follows_of_quiet fun _ _ => ⟨rfl, fun _ => rfl⟩) (by decide) (by decide) hc' hphase hn

theorem undone_finalized (hp : p.Appending) (hc : c ∈ calls phases p w)
    (hphase : c.phase = .finalized) (hn : c.report = none) : Undone .finalized p w := by
  have h : Opens p w := opens_of_late hp hc (by rw [hphase]; decide)
  have hbefore : exec (before .finalized) p w =
      exec (untilSecondCheckpoint >>= fun _ => transform) p w := by
    rw [before, exec_bind, exec_bind, Result.next, Result.next, h.1.1]
    simp only [exec_bind, exec_checkpoint, h.1.2, if_true, next_ok]
  have hx {V : Type} {q : Pipeline (StateM V)} {v : V} (hq : Opens q v) : exec phases q v =
      exec ((untilSecondCheckpoint >>= fun _ => transform) >>= fun _ =>
        filePhase .finalized (·.finalized) >>= fun _ => afterFinalized) q v := by
    rw [exec_phases_of_opens hq, conclusion_eq_finalized, bind_assoc]
  rw [calls, hx (opens_observed.2 h)] at hc
  rw [Undone, hbefore, hx h]
  exact undone_of_report_eq_none notes_finalized
    (follows_untilSecondCheckpoint.bind fun _ => follows_transform) follows_afterFinalized
    (by decide) (by decide) hc hphase hn

end

/-! ### One run and many -/

/-- What holds of the calls and the problems of a run. -/
structure Orderly (p : Pipeline (StateM W)) (w : W) : Prop where
  /-- Observing a run changes nothing else about it. -/
  observed : ∀ cs, p.observed.run ⟨cs, w⟩ = (((exec phases p w).outcome,
    (exec phases p w).pipeline.observed), ⟨cs ++ calls phases p w, (exec phases p w).world⟩)
  ordered : (calls phases p w).map Call.key <+: p.schedule Phase.all
  complete : ∀ s, (exec phases p w).outcome = .ok s →
    (calls phases p w).map Call.key = p.schedule (Phase.planned p.context.settings.dryRun)
  gated : ∀ c ∈ calls phases p w, c.phase ∈ Phase.late → p.context.settings.dryRun = false ∧
    Clean untilFirstCheckpoint p w ∧ Clean untilSecondCheckpoint p w
  untilFirst : p.context.problems <+: (exec untilFirstCheckpoint p w).pipeline.context.problems
  untilSecond : (exec untilFirstCheckpoint p w).pipeline.context.problems <+:
    (exec untilSecondCheckpoint p w).pipeline.context.problems
  untilEnd : (exec untilSecondCheckpoint p w).pipeline.context.problems <+:
    (exec phases p w).pipeline.context.problems
  undone : ∀ c ∈ calls phases p w, c.phase ∈ [Phase.initial, .collected, .finalized] →
    c.report = none → Undone c.phase p w

theorem orderly_of_appending {p : Pipeline (StateM W)} (hp : p.Appending) (w : W) :
    Orderly p w where
  observed cs := by
    rw [run_eq, (makes_phases hp w).journal]
    rfl
  ordered := by
    refine (makes_phases hp w).ordered.trans ?_
    cases p.context.settings.dryRun with
    | false => exact List.prefix_rfl
    | true =>
      show p.schedule Phase.early <+: p.schedule (Phase.early ++ Phase.late)
      rw [schedule_append]
      exact List.prefix_append _ _
  complete := (makes_phases hp w).complete
  gated c hc hl := by
    have h := opens_of_late hp hc hl
    refine ⟨?_, clean_untilFirstCheckpoint h.1.1, h.1⟩
    rw [← h.2]
    exact (advancing_untilSecondCheckpoint p w hp).context.dryRun.symm
  untilFirst := (advancing_untilFirstCheckpoint p w hp).context.problems
  untilSecond := (advancing_untilFirstCheckpoint.advances_bind
    (fun _ => advancing_checkpoint.bind fun _ => advancing_filePhase _ _) hp w).context.problems
  untilEnd := by
    rw [exec_phases]
    exact (advances_concluded (advancing_untilSecondCheckpoint p w hp).appending).context.problems
  undone c hc hphase hn := by
    simp only [List.mem_cons, List.not_mem_nil, or_false] at hphase
    rcases hphase with h | h | h
    · exact h ▸ undone_initial hp hc h hn
    · exact h ▸ undone_collected hp hc h hn
    · exact h ▸ undone_finalized hp hc h hn

/-- The pipeline and the world after a number of runs. -/
def after (p : Pipeline (StateM W)) (w : W) : Nat → Pipeline (StateM W) × W
  | 0 => (p, w)
  | n + 1 =>
    let r := exec phases (after p w n).1 (after p w n).2
    (r.pipeline, r.world)

section

variable {p : Pipeline (StateM W)} {w : W}

theorem after_advances (hp : p.Appending) (w : W) (n : Nat) : Advances p (after p w n).1 := by
  induction n with
  | zero => exact ⟨.refl p.context, hp⟩
  | succ n ih => exact ih.trans (advancing_phases _ _ ih.appending)

theorem problems_after_le (hp : p.Appending) (w : W) {k n : Nat} (h : k ≤ n) :
    (after p w k).1.context.problems <+: (after p w n).1.context.problems := by
  induction h with
  | refl => exact List.prefix_rfl
  | @step n _ ih =>
    exact ih.trans (advancing_phases _ _ (after_advances hp w n).appending).context.problems

theorem schedule_after (hp : p.Appending) (w : W) (n : Nat) (phases : List Phase) :
    (after p w n).1.schedule phases = p.schedule phases := by
  refine schedule_eq_of_plugins ?_ phases
  induction n with
  | zero => rfl
  | succ n ih => exact (makes_phases (after_advances hp w n).appending _).plugins.trans ih

/-- A checkpoint of a run that has failed, as a fact about the pipeline after the run. -/
theorem problems_ne_nil_of_stopped (hp : p.Appending)
    (h : Stopped untilFirstCheckpoint p w ∨ Stopped untilSecondCheckpoint p w) :
    (exec phases p w).pipeline.context.problems ≠ [] := by
  have ho := orderly_of_appending hp w
  intro hend
  rcases h with h | h
  · exact h.2 (List.prefix_nil.1 (hend ▸ ho.untilSecond.trans ho.untilEnd))
  · exact h.2 (List.prefix_nil.1 (hend ▸ ho.untilEnd))

end

/-- However often a pipeline is run, each run is orderly and keeps to the same schedule, problems
are only ever added, and from the first run in which a checkpoint fails no phase behind the gate is
called any more. -/
theorem runs_orderly (p : Pipeline (StateM W)) (hp : p.Appending) (w : W) (n : Nat) :
    Orderly (after p w n).1 (after p w n).2 ∧
    (∀ phases, (after p w n).1.schedule phases = p.schedule phases) ∧
    (after p w n).1.context.settings.dryRun = p.context.settings.dryRun ∧
    (∀ k ≤ n, (after p w k).1.context.problems <+: (after p w n).1.context.problems) ∧
    ∀ k ≤ n, Stopped untilFirstCheckpoint (after p w k).1 (after p w k).2 ∨
        Stopped untilSecondCheckpoint (after p w k).1 (after p w k).2 →
      ∀ c ∈ calls phases (after p w n).1 (after p w n).2, c.phase ∉ Phase.late := by
  have hn := after_advances hp w n
  have ho := orderly_of_appending hn.appending (after p w n).2
  refine ⟨ho, schedule_after hp w n, hn.context.dryRun, fun k hk => problems_after_le hp w hk,
    fun k hk hstopped c hc hl => ?_⟩
  obtain ⟨-, hfirst, hsecond⟩ := ho.gated c hc hl
  rcases Nat.lt_or_eq_of_le hk with hlt | rfl
  · have hk' := problems_ne_nil_of_stopped (after_advances hp w k).appending hstopped
    have hlater := (problems_after_le hp w (k := k + 1) hlt).trans ho.untilFirst
    exact hk' (List.prefix_nil.1 (hfirst.2 ▸ hlater))
  · rcases hstopped with h | h
    · exact h.2 hfirst.2
    · exact h.2 hsecond.2

/-- The phases of a plugin that counts its runs, collects and always finds the same problem. -/
def pedanticPhases : Phases (StateM Nat) :=
  { Phases.idle (StateM Nat) with
    initial := fun _ => do
      modify (· + 1)
      return { Report.ofDocument .empty with problems := [.unreadable ⟨"a"⟩ ⟨1, 1⟩] }
    collect := return some (collector _) }

/-- A pipeline whose second plugin would fail at the end of a run. -/
def pedantic : Pipeline (StateM Nat) where
  baseDir := ⟨""⟩
  context := .fresh
  plugins :=
    [⟨⟨"pedant", Phase.all, [], pedanticPhases, fun _ c => return (.ok pedanticPhases, c)⟩, default,
        pedanticPhases⟩,
      ⟨⟨"late", [.transform, .finalized], [], .idle _, fun _ c => return (.ok (.idle _), c)⟩, default,
        { Phases.idle (StateM Nat) with finalized := fun _ => throw .noDocument }⟩]
  moduleProblems := []
  summary := ⟨[], []⟩

theorem appending_pedantic : pedantic.Appending := by
  have hpedantic : AppendingPhases pedanticPhases := by
    rintro w v ⟨⟩
    exact appendingVisitor_collector
  have hidle {f : Phases (StateM Nat)} (h : f.collect = return none) : AppendingPhases f := by
    intro w v hv
    rw [h] at hv
    cases hv
  intro l hl
  simp only [pedantic, List.mem_cons, List.not_mem_nil, or_false] at hl
  rcases hl with rfl | rfl
  · refine ⟨⟨fun _ _ _ => .refl, ?_⟩, hpedantic⟩
    rintro t c w f ⟨⟩
    exact hpedantic
  · refine ⟨⟨fun _ _ _ => .refl, ?_⟩, hidle rfl⟩
    rintro t c w f ⟨⟩
    exact hidle rfl

theorem pedantic_runs_orderly :
    pedantic.Appending ∧
    Stopped untilFirstCheckpoint (after pedantic 0 0).1 (after pedantic 0 0).2 ∧
    Orderly (after pedantic 0 1).1 (after pedantic 0 1).2 ∧
    ∀ c ∈ calls phases (after pedantic 0 1).1 (after pedantic 0 1).2, c.phase ∉ Phase.late := by
  have hstopped : Stopped untilFirstCheckpoint (after pedantic 0 0).1 (after pedantic 0 0).2 :=
    ⟨rfl, List.cons_ne_nil _ _⟩
  obtain ⟨ho, -, -, -, hgate⟩ := runs_orderly pedantic appending_pedantic 0 1
  exact ⟨appending_pedantic, hstopped, ho, hgate 0 (Nat.zero_le 1) (.inl hstopped)⟩

end TypeLoom.Pipeline
