import TypeLoom.Proofs.Pipeline.Growth

/-!
# The calls of a run

A pipeline can be observed: each of its plugins then notes in a journal every call of a phase and
the report that it answered with, and does otherwise what it did before. The calls of a step are
what its journal says.

A step follows a schedule if its observed form does what it does itself and its calls are those that
the schedule lists, in that order, up to the first plugin that fails. Main statement: steps taken one
after the other follow their schedules one after the other.
-/

namespace TypeLoom.Pipeline

open Collected

variable {W α β : Type}

/-- A call of a plugin, which is known by its place among the plugins. Only phases that answer with
a report have one, and only if the plugin did not fail. -/
structure Call where
  plugin : Nat
  phase : Phase
  report : Option Report

namespace Call

def key (c : Call) : Nat × Phase := (c.plugin, c.phase)

/-- A call in a phase that answers with something else than a report. -/
def silent (plugin : Nat) (phase : Phase) (_ : α) : Call := ⟨plugin, phase, none⟩

/-- A call in a phase that answers with a report or fails. -/
def reporting (plugin : Nat) (phase : Phase) (r : Except Failure Report) : Call :=
  ⟨plugin, phase, r.toOption⟩

end Call

/-- A world and the calls made in it. -/
structure Journal (W : Type) where
  calls : List Call
  world : W

/-! ### Observed pipelines -/

/-- Does something that is not a call. -/
def unnoted (x : StateM W α) : StateM (Journal W) α :=
  fun j => (answer x j.world, ⟨j.calls, worldAfter x j.world⟩)

/-- Does something and notes it. -/
def noted (call : α → Call) (x : StateM W α) : StateM (Journal W) α :=
  fun j => (answer x j.world, ⟨j.calls ++ [call (answer x j.world)], worldAfter x j.world⟩)

@[simp]
theorem answer_unnoted (x : StateM W α) (j : Journal W) :
    answer (unnoted x) j = answer x j.world := rfl

@[simp]
theorem worldAfter_unnoted (x : StateM W α) (j : Journal W) :
    worldAfter (unnoted x) j = ⟨j.calls, worldAfter x j.world⟩ := rfl

@[simp]
theorem answer_noted (call : α → Call) (x : StateM W α) (j : Journal W) :
    answer (noted call x) j = answer x j.world := rfl

@[simp]
theorem worldAfter_noted (call : α → Call) (x : StateM W α) (j : Journal W) :
    worldAfter (noted call x) j =
      ⟨j.calls ++ [call (answer x j.world)], worldAfter x j.world⟩ := rfl

def observedVisitor (v : Visitor (StateM W)) : Visitor (StateM (Journal W)) where
  visit i x c := unnoted (v.visit i x c)
  finish c := unnoted (v.finish c)

def Phases.observed (i : Nat) (f : Phases (StateM W)) : Phases (StateM (Journal W)) where
  initial c := .mk (noted (.reporting i .initial) (f.initial c).run)
  collect := return (← noted (.silent i .collect) f.collect).map observedVisitor
  validators := noted (.silent i .validate) f.validators
  collected c := .mk (noted (.reporting i .collected) (f.collected c).run)
  transform c := .mk (noted (.reporting i .transform) (f.transform c).run)
  finalized c := .mk (noted (.reporting i .finalized) (f.finalized c).run)

def Plugin.observed (i : Nat) (l : Plugin (StateM W)) : Plugin (StateM (Journal W)) where
  id := l.id
  capabilities := l.capabilities
  requires := l.requires
  unconfigured := l.unconfigured.observed i
  configure t c := do
    let r ← noted (.silent i .configure) (l.configure t c)
    return (r.1.map (Phases.observed i), r.2)

def LoadedPlugin.observed (i : Nat) (l : LoadedPlugin (StateM W)) :
    LoadedPlugin (StateM (Journal W)) := ⟨l.plugin.observed i, l.value, l.phases.observed i⟩

/-- The pipeline whose plugins note what is asked of them. -/
def observed (p : Pipeline (StateM W)) : Pipeline (StateM (Journal W)) where
  baseDir := p.baseDir
  context := p.context
  plugins := p.plugins.zipIdx.map fun x => x.1.observed x.2
  moduleProblems := p.moduleProblems
  summary := p.summary

@[simp]
theorem observed_baseDir (p : Pipeline (StateM W)) : p.observed.baseDir = p.baseDir := rfl

@[simp]
theorem observed_context (p : Pipeline (StateM W)) : p.observed.context = p.context := rfl

@[simp]
theorem observed_plugins (p : Pipeline (StateM W)) :
    p.observed.plugins = p.plugins.zipIdx.map fun x => x.1.observed x.2 := rfl

def Result.observed (r : Result W α) (cs : List Call) : Result (Journal W) α :=
  ⟨r.outcome, r.pipeline.observed, ⟨cs, r.world⟩⟩

/-! ### Schedules -/

/-- The plugins that take part in a phase, with their places. -/
def indexed (p : Pipeline (StateM W)) (phase : Phase) : List (LoadedPlugin (StateM W) × Nat) :=
  p.plugins.zipIdx.filter (·.1.has phase)

/-- One call of each plugin that takes part in a phase, in the order of plugins. -/
def block (p : Pipeline (StateM W)) (phase : Phase) : List (Nat × Phase) :=
  (p.indexed phase).map fun x => (x.2, phase)

/-- The blocks of some phases. -/
def schedule (p : Pipeline (StateM W)) (phases : List Phase) : List (Nat × Phase) :=
  phases.flatMap p.block

theorem schedule_append (p : Pipeline (StateM W)) (xs ys : List Phase) :
    p.schedule (xs ++ ys) = p.schedule xs ++ p.schedule ys := List.flatMap_append

/-- Configuration changes what plugins do, but not in which phases. -/
theorem block_eq_of_plugins {p q : Pipeline (StateM W)}
    (h : q.plugins.map (·.plugin) = p.plugins.map (·.plugin)) (phase : Phase) :
    q.block phase = p.block phase := by
  have hblock : ∀ r : Pipeline (StateM W), r.block phase =
      (((r.plugins.map (·.plugin)).zipIdx.filter (·.1.capabilities.contains phase)).map
        fun x => (x.2, phase)) := by
    intro r
    rw [block, indexed, List.zipIdx_map, List.filter_map, List.map_map]
    rfl
  rw [hblock, hblock, h]

theorem schedule_eq_of_plugins {p q : Pipeline (StateM W)}
    (h : q.plugins.map (·.plugin) = p.plugins.map (·.plugin)) (phases : List Phase) :
    q.schedule phases = p.schedule phases := by
  rw [schedule, schedule, funext (block_eq_of_plugins h)]

theorem phase_of_mem_schedule {p : Pipeline (StateM W)} {phases : List Phase} {k : Nat × Phase}
    (h : k ∈ p.schedule phases) : k.2 ∈ phases := by
  obtain ⟨phase, hphase, hk⟩ := List.mem_flatMap.1 h
  obtain ⟨x, -, rfl⟩ := List.mem_map.1 hk
  exact hphase

theorem participants_eq (p : Pipeline (StateM W)) (phase : Phase) :
    p.participants phase = (p.indexed phase).map (·.1) := by
  calc p.participants phase
      = (p.plugins.zipIdx.map (·.1)).filter (·.has phase) := by
        rw [List.zipIdx_map_fst 0 p.plugins]
        rfl
    _ = (p.indexed phase).map (·.1) := List.filter_map

theorem participants_observed (p : Pipeline (StateM W)) (phase : Phase) :
    p.observed.participants phase = (p.indexed phase).map fun x => x.1.observed x.2 :=
  List.filter_map

/-! ### Steps that follow a schedule -/

/-- The calls that a step makes. -/
def calls (x : Running (StateM (Journal W)) α) (p : Pipeline (StateM W)) (w : W) : List Call :=
  (exec x p.observed ⟨[], w⟩).world.calls

/-- A step, its observed form and the calls it makes from a pipeline in a world. -/
structure Makes (phases : List Phase) (x : Running (StateM W) α)
    (x' : Running (StateM (Journal W)) α) (p : Pipeline (StateM W)) (w : W)
    (made : List Call) : Prop where
  journal : ∀ cs, exec x' p.observed ⟨cs, w⟩ = (exec x p w).observed (cs ++ made)
  plugins : (exec x p w).pipeline.plugins.map (·.plugin) = p.plugins.map (·.plugin)
  ordered : made.map Call.key <+: p.schedule phases
  complete : ∀ a, (exec x p w).outcome = .ok a → made.map Call.key = p.schedule phases

/-- A step that calls plugins in the order of some phases, if it is not ended by a failure. -/
def Follows (phases : List Phase) (x : Running (StateM W) α)
    (x' : Running (StateM (Journal W)) α) : Prop :=
  ∀ p w, Makes phases x x' p w (calls x' p w)

section

variable {phases later : List Phase} {x : Running (StateM W) α}
  {x' : Running (StateM (Journal W)) α} {f : α → Running (StateM W) β}
  {f' : α → Running (StateM (Journal W)) β} {p : Pipeline (StateM W)} {w : W} {made : List Call}

theorem Makes.calls_eq (h : Makes phases x x' p w made) : calls x' p w = made := by
  rw [calls, h.journal]
  rfl

theorem follows_of_makes (h : ∀ p w, ∃ made, Makes phases x x' p w made) :
    Follows phases x x' := by
  intro p w
  obtain ⟨made, hm⟩ := h p w
  rw [hm.calls_eq]
  exact hm

theorem Makes.phase_mem (h : Makes phases x x' p w made) {c : Call} (hc : c ∈ made) :
    c.phase ∈ phases :=
  phase_of_mem_schedule (h.ordered.subset (List.mem_map_of_mem hc))

/-- A step that is not the last makes its calls before the others, and all of them. -/
theorem Makes.bind {a : α} {more : List Call} (h : Makes phases x x' p w made)
    (ha : (exec x p w).outcome = .ok a)
    (hf : Makes later (f a) (f' a) (exec x p w).pipeline (exec x p w).world more) :
    Makes (phases ++ later) (x >>= f) (x' >>= f') p w (made ++ more) := by
  have hx : exec (x >>= f) p w = exec (f a) (exec x p w).pipeline (exec x p w).world := by
    rw [exec_bind, Result.next, ha]
  have hkey : (made ++ more).map Call.key = p.schedule phases ++ more.map Call.key := by
    rw [List.map_append, h.complete a ha]
  refine ⟨fun cs => ?_, ?_, ?_, fun b hb => ?_⟩
  · rw [exec_bind, h.journal, Result.next, Result.observed, ha, hx, ← List.append_assoc]
    exact hf.journal _
  · rw [hx, hf.plugins, h.plugins]
  · rw [hkey, schedule_append, List.prefix_append_right_inj,
      ← schedule_eq_of_plugins h.plugins later]
    exact hf.ordered
  · rw [hx] at hb
    rw [hkey, hf.complete b hb, schedule_append, schedule_eq_of_plugins h.plugins]

/-- A step that fails ends the calls. -/
theorem Makes.bind_error {e : Failure} (h : Makes phases x x' p w made)
    (he : (exec x p w).outcome = .error e) (later : List Phase) :
    Makes (phases ++ later) (x >>= f) (x' >>= f') p w made := by
  have hx : exec (x >>= f) p w = ⟨.error e, (exec x p w).pipeline, (exec x p w).world⟩ := by
    rw [exec_bind, Result.next, he]
  refine ⟨fun cs => ?_, ?_, ?_, fun b hb => ?_⟩
  · rw [exec_bind, h.journal, Result.next, Result.observed, he, hx]
    rfl
  · rw [hx]
    exact h.plugins
  · rw [schedule_append]
    exact h.ordered.trans (List.prefix_append _ _)
  · rw [hx] at hb
    cases hb

theorem Follows.bind (hx : Follows phases x x') (hf : ∀ a, Follows later (f a) (f' a)) :
    Follows (phases ++ later) (x >>= f) (x' >>= f') := by
  refine follows_of_makes fun p w => ?_
  cases ho : (exec x p w).outcome with
  | error e => exact ⟨_, (hx p w).bind_error ho later⟩
  | ok a => exact ⟨_, (hx p w).bind ho (hf a _ _)⟩

theorem Follows.calls_bind (hx : Follows phases x x') (hf : ∀ a, Follows later (f a) (f' a))
    {a : α} (ha : (exec x p w).outcome = .ok a) :
    calls (x' >>= f') p w =
      calls x' p w ++ calls (f' a) (exec x p w).pipeline (exec x p w).world :=
  ((hx p w).bind ha (hf a _ _)).calls_eq

/-- A sequence of steps that succeeds, step by step. -/
theorem Follows.bind_ok (hx : Follows phases x x') (hf : ∀ a, Follows later (f a) (f' a)) {b : β}
    (h : (exec (x >>= f) p w).outcome = .ok b) :
    ∃ a, (exec x p w).outcome = .ok a ∧
      exec (x >>= f) p w = exec (f a) (exec x p w).pipeline (exec x p w).world ∧
      calls (x' >>= f') p w =
        calls x' p w ++ calls (f' a) (exec x p w).pipeline (exec x p w).world := by
  rw [exec_bind] at h ⊢
  obtain ⟨a, ha, hnext⟩ := next_eq_ok h
  exact ⟨a, ha, hnext, hx.calls_bind hf ha⟩

theorem Follows.calls_bind_error (hx : Follows phases x x') {e : Failure}
    (he : (exec x p w).outcome = .error e) : calls (x' >>= f') p w = calls x' p w :=
  ((hx p w).bind_error (f := fun _ => (throw e : Running (StateM W) β)) he []).calls_eq

end

end TypeLoom.Pipeline
