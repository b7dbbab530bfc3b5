import Mathlib.Data.List.Basic
import TypeLoom.Pipeline.Run
import TypeLoom.Proofs.World

/-!
# Steps of a run as functions

Over a world that plugins read and change as they like, a step of a run is a function of the
pipeline and the world. Steps are run one after the other until one fails; the pipeline is then
kept as it is. A run is cut at its two checkpoints into parts that are steps of their own.
-/

namespace TypeLoom.Pipeline

open Collected

variable {W α β : Type}

/-- What a step answers, and the pipeline and the world after it. -/
structure Result (W α : Type) where
  outcome : Except Failure α
  pipeline : Pipeline (StateM W)
  world : W

/-- Takes a step from a pipeline in a world. -/
def exec (x : Running (StateM W) α) (p : Pipeline (StateM W)) (w : W) : Result W α :=
  let r : (Except Failure α × Pipeline (StateM W)) × W := x.run.run p w
  ⟨r.1.1, r.1.2, r.2⟩

/-- Goes on with a step unless the one before it failed. -/
def Result.next (r : Result W α) (f : α → Running (StateM W) β) : Result W β :=
  match r.outcome with
  | .ok a => exec (f a) r.pipeline r.world
  | .error e => ⟨.error e, r.pipeline, r.world⟩

theorem exec_bind (x : Running (StateM W) α) (f : α → Running (StateM W) β)
    (p : Pipeline (StateM W)) (w : W) : exec (x >>= f) p w = (exec x p w).next f := by
  let first : (Except Failure α × Pipeline (StateM W)) × W := x.run.run p w
  let rest : (Except Failure β × Pipeline (StateM W)) × W :=
    (ExceptT.bindCont f first.1.1 first.1.2 : StateM W _) first.2
  show (⟨rest.1.1, rest.1.2, rest.2⟩ : Result W β) = Result.next ⟨first.1.1, first.1.2, first.2⟩ f
  subst rest
  obtain ⟨⟨outcome, q⟩, v⟩ := first
  cases outcome <;> rfl

@[simp]
theorem exec_get (p : Pipeline (StateM W)) (w : W) : exec get p w = ⟨.ok p, p, w⟩ := rfl

@[simp]
theorem exec_lift (x : StateM W α) (p : Pipeline (StateM W)) (w : W) :
    exec (liftM x : Running (StateM W) α) p w = ⟨.ok (answer x w), p, worldAfter x w⟩ := rfl

@[simp]
theorem next_ok (a : α) (p : Pipeline (StateM W)) (w : W) (f : α → Running (StateM W) β) :
    Result.next ⟨.ok a, p, w⟩ f = exec (f a) p w := rfl

@[simp]
theorem next_error (e : Failure) (p : Pipeline (StateM W)) (w : W)
    (f : α → Running (StateM W) β) : Result.next ⟨.error e, p, w⟩ f = ⟨.error e, p, w⟩ := rfl

/-- A step that follows another succeeds only after it. -/
theorem next_eq_ok {r : Result W α} {f : α → Running (StateM W) β} {b : β}
    (h : (r.next f).outcome = .ok b) :
    ∃ a, r.outcome = .ok a ∧ r.next f = exec (f a) r.pipeline r.world := by
  obtain ⟨outcome, q, v⟩ := r
  cases outcome with
  | error e => cases h
  | ok a => exact ⟨a, rfl, rfl⟩

theorem exec_perform (a : Action (StateM W) α) (p : Pipeline (StateM W)) (w : W) :
    exec (perform a) p w = ⟨answer a.run w, p, worldAfter a.run w⟩ := by
  unfold perform
  rw [exec_bind, exec_lift, next_ok]
  cases answer a.run w <;> rfl

/-- Lets plugins act one after the other until one fails. -/
def gather (act : LoadedPlugin (StateM W) → Action (StateM W) Report) :
    List (LoadedPlugin (StateM W)) → W → Except Failure (List Report) × W
  | [], w => (.ok [], w)
  | l :: ls, w =>
    match answer (act l).run w with
    | .error e => (.error e, worldAfter (act l).run w)
    | .ok r =>
      let (rest, v) := gather act ls (worldAfter (act l).run w)
      (rest.map (r :: ·), v)

theorem exec_mapM_perform (act : LoadedPlugin (StateM W) → Action (StateM W) Report)
    (ls : List (LoadedPlugin (StateM W))) (p : Pipeline (StateM W)) (w : W) :
    exec (ls.mapM fun l => perform (act l)) p w = ⟨(gather act ls w).1, p, (gather act ls w).2⟩ := by
  induction ls generalizing w with
  | nil => rfl
  | cons l ls ih =>
    rw [List.mapM_cons, exec_bind, exec_perform, gather]
    cases answer (act l).run w with
    | error e => rfl
    | ok r =>
      rw [next_ok, exec_bind, ih]
      obtain ⟨rest, v⟩ := gather act ls (worldAfter (act l).run w)
      cases rest <;> rfl

/-- A phase that works on files applies all its reports or, if a plugin fails, changes nothing. -/
theorem exec_filePhase (phase : Phase) (act : Phases (StateM W) → Context → Action (StateM W) Report)
    (p : Pipeline (StateM W)) (w : W) :
    exec (filePhase phase act) p w =
      match gather (fun l => act l.phases p.context) (p.participants phase) w with
      | (.ok rs, v) => ⟨.ok (), rs.foldl apply p, v⟩
      | (.error e, v) => ⟨.error e, p, v⟩ := by
  unfold filePhase
  rw [exec_bind, exec_get, next_ok, exec_bind, exec_mapM_perform]
  obtain ⟨outcome, v⟩ := gather (fun l => act l.phases p.context) (p.participants phase) w
  cases outcome <;> rfl

/-- A phase in which one plugin takes part. -/
theorem exec_filePhase_singleton {phase : Phase}
    (act : Phases (StateM W) → Context → Action (StateM W) Report) {p : Pipeline (StateM W)}
    {l : LoadedPlugin (StateM W)} (hl : p.participants phase = [l]) (w : W) :
    exec (filePhase phase act) p w =
      match answer (act l.phases p.context).run w with
      | .ok r => ⟨.ok (), p.apply r, worldAfter (act l.phases p.context).run w⟩
      | .error e => ⟨.error e, p, worldAfter (act l.phases p.context).run w⟩ := by
  rw [exec_filePhase, hl, gather]
  cases answer (act l.phases p.context).run w <;> rfl

theorem exec_checkpoint (p : Pipeline (StateM W)) (w : W) :
    exec checkpoint p w = if p.context.problems = [] then ⟨.ok (), p, w⟩
      else ⟨.error (.schema p.context.problems), p, w⟩ := by
  unfold checkpoint
  rw [exec_bind, exec_get, next_ok]
  cases p.context.problems <;> rfl

theorem exec_moduleCheckpoint (p : Pipeline (StateM W)) (w : W) :
    exec moduleCheckpoint p w = if p.moduleProblems = [] then ⟨.ok (), p, w⟩
      else ⟨.error (.modules p.moduleProblems), { p with moduleProblems := [] }, w⟩ := by
  unfold moduleCheckpoint
  rw [exec_bind, exec_get, next_ok]
  cases p.moduleProblems <;> rfl

section

variable {baseDir : Path} {l : LoadedPlugin (StateM W)} (ls : List (LoadedPlugin (StateM W)))
  {c c' : Context} {w : W}

/-- A plugin that is not to be configured is passed over. -/
theorem configureAll_skip (hl : l.has .configure = false) :
    answer (configureAll baseDir (l :: ls) c) w =
        ((answer (configureAll baseDir ls c) w).1, l :: (answer (configureAll baseDir ls c) w).2.1,
          (answer (configureAll baseDir ls c) w).2.2) ∧
      worldAfter (configureAll baseDir (l :: ls) c) w = worldAfter (configureAll baseDir ls c) w := by
  rw [configureAll, if_neg (by simp [hl])]
  exact ⟨rfl, rfl⟩

/-- A plugin that rejects its configuration ends it for all. -/
theorem configureAll_error {e : Failure} {x : StateM W (Except Failure (Phases (StateM W)) × Context)}
    (hl : l.has .configure = true) (hx : l.plugin.configure ⟨l.plugin.id, baseDir, l.value⟩ c = x)
    (h : answer x w = (.error e, c')) :
    answer (configureAll baseDir (l :: ls) c) w = (.error e, l :: ls, c') ∧
      worldAfter (configureAll baseDir (l :: ls) c) w = worldAfter x w := by
  rw [configureAll, if_pos hl, hx, answer_bind, worldAfter_bind, h]
  exact ⟨rfl, rfl⟩

/-- A plugin that is configured has its phases, and the others are configured after it. -/
theorem configureAll_ok {f : Phases (StateM W)}
    {x : StateM W (Except Failure (Phases (StateM W)) × Context)}
    (hl : l.has .configure = true) (hx : l.plugin.configure ⟨l.plugin.id, baseDir, l.value⟩ c = x)
    (h : answer x w = (.ok f, c')) :
    answer (configureAll baseDir (l :: ls) c) w =
        ((answer (configureAll baseDir ls c') (worldAfter x w)).1,
          { l with phases := f } :: (answer (configureAll baseDir ls c') (worldAfter x w)).2.1,
          (answer (configureAll baseDir ls c') (worldAfter x w)).2.2) ∧
      worldAfter (configureAll baseDir (l :: ls) c) w =
        worldAfter (configureAll baseDir ls c') (worldAfter x w) := by
  rw [configureAll, if_pos hl, hx, answer_bind, worldAfter_bind, h]
  exact ⟨rfl, rfl⟩

/-- What each plugin keeps when it is configured, of itself and of what it is configured in, is kept
when all are configured. -/
theorem configureAll_invariant (baseDir : Path) {P : LoadedPlugin (StateM W) → Prop}
    {I : Context → W → Prop}
    (hstep : ∀ l t c w, P l → I c w →
      I (answer (l.plugin.configure t c) w).2 (worldAfter (l.plugin.configure t c) w) ∧
        ∀ f, (answer (l.plugin.configure t c) w).1 = .ok f → P { l with phases := f })
    (hls : ∀ l ∈ ls, P l) (hc : I c w) :
    (∀ l ∈ (answer (configureAll baseDir ls c) w).2.1, P l) ∧
      I (answer (configureAll baseDir ls c) w).2.2 (worldAfter (configureAll baseDir ls c) w) := by
  induction ls generalizing c w with
  | nil => exact ⟨hls, hc⟩
  | cons l ls ih =>
    obtain ⟨hl, hrest⟩ := List.forall_mem_cons.1 hls
    cases hhas : l.has .configure with
    | false =>
      obtain ⟨hplugins, hcontext⟩ := ih hrest hc
      obtain ⟨ha, hw⟩ := configureAll_skip ls hhas
      rw [ha, hw]
      exact ⟨List.forall_mem_cons.2 ⟨hl, hplugins⟩, hcontext⟩
    | true =>
      generalize hx : l.plugin.configure ⟨l.plugin.id, baseDir, l.value⟩ c = x
      obtain ⟨hcontext, hphases⟩ := hx ▸ hstep l ⟨l.plugin.id, baseDir, l.value⟩ c w hl hc
      rcases hanswer : answer x w with ⟨e | f, c'⟩
      · rw [hanswer] at hcontext
        obtain ⟨ha, hw⟩ := configureAll_error ls hhas hx hanswer
        rw [ha, hw]
        exact ⟨hls, hcontext⟩
      · rw [hanswer] at hcontext hphases
        obtain ⟨hplugins, hend⟩ := ih hrest hcontext
        obtain ⟨ha, hw⟩ := configureAll_ok ls hhas hx hanswer
        rw [ha, hw]
        exact ⟨List.forall_mem_cons.2 ⟨hphases f rfl, hplugins⟩, hend⟩

end

theorem exec_configure (p : Pipeline (StateM W)) (w : W) :
    exec configure p w =
      let r := answer (configureAll p.baseDir p.plugins p.context) w
      ⟨r.1, { p with plugins := r.2.1, context := r.2.2 },
        worldAfter (configureAll p.baseDir p.plugins p.context) w⟩ := by
  unfold configure
  rw [exec_bind, exec_get, next_ok, exec_bind, exec_lift, next_ok]
  rcases answer (configureAll p.baseDir p.plugins p.context) w with ⟨_ | _, plugins, context⟩ <;> rfl

theorem exec_mapM_lift (f : LoadedPlugin (StateM W) → StateM W α)
    (ls : List (LoadedPlugin (StateM W))) (p : Pipeline (StateM W)) (w : W) :
    exec (ls.mapM fun l => (liftM (f l) : Running (StateM W) α)) p w =
      ⟨.ok (answer (ls.mapM f) w), p, worldAfter (ls.mapM f) w⟩ := by
  induction ls generalizing w with
  | nil => rfl
  | cons l ls ih =>
    rw [List.mapM_cons, exec_bind, exec_lift, next_ok, exec_bind, ih, next_ok, List.mapM_cons]
    rfl

/-- The context after a document was collected and checked. -/
def checked (rules : List Rule) (c : Context) : Context :=
  (rules.foldl (fun c rule => c.addProblems (rule.check c)) c).validate

/-- Collects and checks a document in a world. -/
def collecting (p : Pipeline (StateM W)) (d : Schema.Document) : StateM W Context := do
  let visitors ← (p.participants .collect).mapM (·.phases.collect)
  let rules ← (p.participants .validate).mapM (·.phases.validators)
  let c ← walk visitors.reduceOption d p.context
  return checked rules.flatten c

theorem exec_collectAndValidate (p : Pipeline (StateM W)) (w : W) :
    exec collectAndValidate p w =
      match p.context.document with
      | none => ⟨.error .noDocument, p, w⟩
      | some d => ⟨.ok (), { p with context := answer (collecting p d) w },
          worldAfter (collecting p d) w⟩ := by
  unfold collectAndValidate
  rw [exec_bind, exec_get, next_ok]
  cases p.context.document with
  | none => rfl
  | some d =>
    dsimp only
    rw [exec_bind, exec_mapM_lift, next_ok, exec_bind, exec_mapM_lift, next_ok]
    rfl

/-- The transformation of one plugin. -/
def transformBy (l : LoadedPlugin (StateM W)) : Running (StateM W) Unit := do
  let report ← perform (l.phases.transform (← get).context)
  modify (·.apply report)

theorem exec_transformBy (l : LoadedPlugin (StateM W)) (p : Pipeline (StateM W)) (w : W) :
    exec (transformBy l) p w =
      match answer (l.phases.transform p.context).run w with
      | .ok r => ⟨.ok (), p.apply r, worldAfter (l.phases.transform p.context).run w⟩
      | .error e => ⟨.error e, p, worldAfter (l.phases.transform p.context).run w⟩ := by
  unfold transformBy
  rw [exec_bind, exec_get, next_ok, exec_bind, exec_perform]
  cases answer (l.phases.transform p.context).run w <;> rfl

theorem exec_transform (p : Pipeline (StateM W)) (w : W) :
    exec transform p w = exec ((p.participants .transform).forM transformBy) p w := by
  unfold transform
  rw [exec_bind, exec_get, next_ok]
  rfl

theorem exec_transform_singleton {p : Pipeline (StateM W)} {l : LoadedPlugin (StateM W)}
    (hl : p.participants .transform = [l]) (w : W) :
    exec transform p w = exec (transformBy l) p w := by
  rw [exec_transform, hl]
  show exec (transformBy l >>= fun _ => pure ()) p w = _
  rw [bind_pure_unit]

/-! ### The parts of a run -/

section

variable {m : Type → Type} [Monad m]

/-- What is done before the first checkpoint. -/
def untilFirstCheckpoint : Running m Unit := do
  configure
  filePhase .initial (·.initial)
  collectAndValidate

/-- What is done before the second checkpoint. -/
def untilSecondCheckpoint : Running m Unit := do
  untilFirstCheckpoint
  checkpoint
  filePhase .collected (·.collected)

/-- What is done for a schema without problems, unless the run is dry. -/
def afterCheckpoints : Running m Unit := do
  transform
  filePhase .finalized (·.finalized)
  moduleCheckpoint

end

/-- What a run is after its last checkpoint. -/
def Result.concluded (r : Result W Unit) : Result W Summary :=
  match r.outcome with
  | .error e => ⟨.error e, r.pipeline, r.world⟩
  | .ok () =>
    if r.pipeline.context.problems = [] then
      if r.pipeline.context.settings.dryRun then ⟨.ok r.pipeline.summary, r.pipeline, r.world⟩
      else exec (do afterCheckpoints; return (← get).summary) r.pipeline r.world
    else ⟨.error (.schema r.pipeline.context.problems), r.pipeline, r.world⟩

theorem exec_phases (p : Pipeline (StateM W)) (w : W) :
    exec phases p w = (exec untilSecondCheckpoint p w).concluded := by
  have hcut : exec phases p w =
      ((exec untilSecondCheckpoint p w).next fun _ => checkpoint).next fun _ => do
        unless (← get).context.settings.dryRun do afterCheckpoints
        return (← get).summary := by
    rw [← exec_bind, ← exec_bind]
    congr 1
    simp only [phases, untilSecondCheckpoint, untilFirstCheckpoint, afterCheckpoints, bind_assoc]
  rw [hcut]
  obtain ⟨_ | _, q, v⟩ := exec untilSecondCheckpoint p w
  · rfl
  · rw [next_ok, exec_checkpoint]
    by_cases hq : q.context.problems = []
    · rw [if_pos hq, next_ok, exec_bind, exec_get, next_ok]
      cases hdry : q.context.settings.dryRun with
      | true =>
        simp only [Result.concluded, hq, hdry, if_true]
        rfl
      | false => simp [Result.concluded, hq, hdry, exec_bind]
    · simp [Result.concluded, hq]

/-- A run is what its phases do. -/
theorem run_eq (p : Pipeline (StateM W)) (w : W) :
    p.run w = (((exec phases p w).outcome, (exec phases p w).pipeline), (exec phases p w).world) :=
  rfl

end TypeLoom.Pipeline
