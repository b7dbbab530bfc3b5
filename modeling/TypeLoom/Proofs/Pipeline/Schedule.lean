import TypeLoom.Proofs.Pipeline.Journal

/-!
# Steps that keep to the schedule

Main statements: each step of a run calls the plugins that take part in its phases, in the order of
plugins, and makes no other calls. The reports of a phase that succeeds are applied in the order of
its calls.
-/

namespace TypeLoom.Pipeline

open Collected

variable {W α β : Type}

/-- A step that calls no plugin and leaves the plugins as they are. -/
theorem follows_of_quiet {x : Running (StateM W) α} {x' : Running (StateM (Journal W)) α}
    (h : ∀ p w, (exec x p w).pipeline.plugins = p.plugins ∧
      ∀ cs, exec x' p.observed ⟨cs, w⟩ = (exec x p w).observed cs) : Follows [] x x' := by
  refine follows_of_makes fun p w => ⟨[], fun cs => ?_, ?_, List.nil_prefix, fun _ _ => rfl⟩
  · rw [List.append_nil, (h p w).2]
  · rw [(h p w).1]

theorem follows_checkpoint :
    Follows [] (checkpoint : Running (StateM W) Unit) checkpoint := by
  refine follows_of_quiet fun p w => ?_
  simp only [exec_checkpoint]
  by_cases hp : p.context.problems = []
  · simp [hp, observed, Result.observed]
  · simp [hp, observed, Result.observed]

theorem follows_moduleCheckpoint :
    Follows [] (moduleCheckpoint : Running (StateM W) Unit) moduleCheckpoint := by
  refine follows_of_quiet fun p w => ?_
  simp only [exec_moduleCheckpoint]
  by_cases hp : p.moduleProblems = []
  · simp [hp, observed, Result.observed]
  · simp [hp, observed, Result.observed]

theorem follows_summary :
    Follows [] (do return (← get).summary : Running (StateM W) Summary)
      (do return (← get).summary) :=
  follows_of_quiet fun _ _ => ⟨rfl, fun _ => rfl⟩

/-! ### Phases that answer with reports -/

/-- Calls whose reports were all taken over, one after the other. -/
def Applies (p : Pipeline (StateM W)) (made : List Call) (q : Pipeline (StateM W)) : Prop :=
  ∃ rs : List Report, made.map Call.report = rs.map some ∧ q = rs.foldl apply p

theorem Applies.refl (p : Pipeline (StateM W)) : Applies p [] p := ⟨[], rfl, rfl⟩

theorem Applies.trans {p q r : Pipeline (StateM W)} {made more : List Call}
    (h : Applies p made q) (h' : Applies q more r) : Applies p (made ++ more) r := by
  obtain ⟨rs, hrs, rfl⟩ := h
  obtain ⟨ts, hts, rfl⟩ := h'
  exact ⟨rs ++ ts, by rw [List.map_append, List.map_append, hrs, hts], List.foldl_append.symm⟩

theorem plugins_foldl_apply (rs : List Report) (p : Pipeline (StateM W)) :
    (rs.foldl apply p).plugins = p.plugins := by
  induction rs generalizing p with
  | nil => rfl
  | cons r rs ih => exact ih (p.apply r)

theorem observed_foldl_apply (rs : List Report) (p : Pipeline (StateM W)) :
    (rs.foldl apply p).observed = rs.foldl apply p.observed := by
  induction rs generalizing p with
  | nil => rfl
  | cons r rs ih => exact ih (p.apply r)

/-- Observed plugins are asked one after the other until one fails, as the plugins are. -/
theorem gather_noted {phase : Phase} (act : LoadedPlugin (StateM W) → Action (StateM W) Report)
    (act' : LoadedPlugin (StateM (Journal W)) → Action (StateM (Journal W)) Report)
    (hact : ∀ i l, (act' (l.observed i)).run = noted (.reporting i phase) (act l).run)
    (ls : List (LoadedPlugin (StateM W) × Nat)) (w : W) :
    ∃ made,
      (∀ cs, gather act' (ls.map fun x => x.1.observed x.2) ⟨cs, w⟩ =
        ((gather act (ls.map (·.1)) w).1, ⟨cs ++ made, (gather act (ls.map (·.1)) w).2⟩)) ∧
      made.map Call.key <+: ls.map (fun x => (x.2, phase)) ∧
      ∀ rs, (gather act (ls.map (·.1)) w).1 = .ok rs →
        made.map Call.key = ls.map (fun x => (x.2, phase)) ∧ made.map Call.report = rs.map some := by
  induction ls generalizing w with
  | nil =>
    refine ⟨[], fun cs => ?_, List.nil_prefix, fun rs hrs => ?_⟩
    · rw [List.append_nil]
      rfl
    · obtain rfl : [] = rs := Except.ok.inj hrs
      exact ⟨rfl, rfl⟩
  | cons x ls ih =>
    obtain ⟨l, i⟩ := x
    simp only [List.map_cons, gather, hact, answer_noted, worldAfter_noted]
    cases ha : answer (act l).run w with
    | error e =>
      refine ⟨[⟨i, phase, none⟩], fun cs => rfl, ?_, fun rs hrs => by cases hrs⟩
      exact List.prefix_append [(i, phase)] _
    | ok r =>
      obtain ⟨made, hj, ho, hok⟩ := ih (worldAfter (act l).run w)
      refine ⟨⟨i, phase, some r⟩ :: made, fun cs => ?_, ?_, fun rs hrs => ?_⟩
      · simp only [hj, List.append_assoc]
        rfl
      · exact (List.prefix_cons_inj (i, phase)).2 ho
      · cases hg : (gather act (ls.map (·.1)) (worldAfter (act l).run w)).1 with
        | error e => simp [hg, Except.map] at hrs
        | ok ts =>
          obtain ⟨hkey, hreport⟩ := hok ts hg
          obtain rfl : r :: ts = rs := by simpa [hg, Except.map] using hrs
          exact ⟨congrArg _ hkey, congrArg _ hreport⟩

section

variable {phase : Phase} {act : Phases (StateM W) → Context → Action (StateM W) Report}
  {act' : Phases (StateM (Journal W)) → Context → Action (StateM (Journal W)) Report}

/-- What an observed plugin does in a phase is noted, and nothing else changes. -/
def Notes (phase : Phase) (act : Phases (StateM W) → Context → Action (StateM W) Report)
    (act' : Phases (StateM (Journal W)) → Context → Action (StateM (Journal W)) Report) : Prop :=
  ∀ i f c, (act' (Phases.observed i f) c).run = noted (.reporting i phase) (act f c).run

theorem notes_initial : Notes (W := W) .initial (·.initial) (·.initial) := fun _ _ _ => rfl

theorem notes_collected : Notes (W := W) .collected (·.collected) (·.collected) :=
  fun _ _ _ => rfl

theorem notes_finalized : Notes (W := W) .finalized (·.finalized) (·.finalized) :=
  fun _ _ _ => rfl

theorem makes_filePhase (hact : Notes phase act act') (p : Pipeline (StateM W)) (w : W) :
    ∃ made, Makes [phase] (filePhase phase act) (filePhase phase act') p w made ∧
      ((exec (filePhase phase act) p w).outcome = .ok () →
        Applies p made (exec (filePhase phase act) p w).pipeline) := by
  obtain ⟨made, hj, ho, hok⟩ := gather_noted (fun l => act l.phases p.context)
    (fun l => act' l.phases p.context) (fun i l => hact i l.phases p.context) (p.indexed phase) w
  rw [← participants_eq] at hj hok
  have hschedule : p.schedule [phase] = (p.indexed phase).map fun x => (x.2, phase) :=
    List.append_nil _
  have hx := exec_filePhase phase act p w
  have hx' (cs : List Call) := exec_filePhase phase act' p.observed ⟨cs, w⟩
  simp only [participants_observed, observed_context, hj] at hx'
  generalize gather (fun l => act l.phases p.context) (p.participants phase) w = asked at *
  obtain ⟨e | rs, v⟩ := asked
  · refine ⟨made, ⟨fun cs => ?_, ?_, hschedule ▸ ho, fun _ h => ?_⟩, fun h => ?_⟩
    · rw [hx, hx']
      rfl
    · rw [hx]
    · rw [hx] at h
      cases h
    · rw [hx] at h
      cases h
  · obtain ⟨hkey, hreport⟩ := hok rs rfl
    refine ⟨made, ⟨fun cs => ?_, ?_, hschedule ▸ ho, fun _ _ => hschedule ▸ hkey⟩, fun _ => ?_⟩
    · rw [hx, hx', Result.observed, observed_foldl_apply]
    · rw [hx, plugins_foldl_apply]
    · exact ⟨rs, hreport, by rw [hx]⟩

theorem follows_filePhase (hact : Notes phase act act') :
    Follows [phase] (filePhase phase act) (filePhase phase act') := by
  refine follows_of_makes fun p w => ?_
  obtain ⟨made, hm, -⟩ := makes_filePhase hact p w
  exact ⟨made, hm⟩

theorem applies_filePhase (hact : Notes phase act act') {p : Pipeline (StateM W)} {w : W}
    (h : (exec (filePhase phase act) p w).outcome = .ok ()) :
    Applies p (calls (filePhase phase act') p w) (exec (filePhase phase act) p w).pipeline := by
  obtain ⟨made, hm, ha⟩ := makes_filePhase hact p w
  rw [hm.calls_eq]
  exact ha h

end

theorem observed_apply (p : Pipeline (StateM W)) (r : Report) :
    (p.apply r).observed = p.observed.apply r := rfl

/-- Transformations are noted one by one, and their reports are applied as they come. -/
theorem forM_noted (ls : List (LoadedPlugin (StateM W) × Nat)) (p : Pipeline (StateM W)) (w : W) :
    ∃ made,
      (∀ cs, exec ((ls.map fun x => x.1.observed x.2).forM transformBy) p.observed ⟨cs, w⟩ =
        (exec ((ls.map (·.1)).forM transformBy) p w).observed (cs ++ made)) ∧
      (exec ((ls.map (·.1)).forM transformBy) p w).pipeline.plugins = p.plugins ∧
      made.map Call.key <+: ls.map (fun x => (x.2, .transform)) ∧
      ((exec ((ls.map (·.1)).forM transformBy) p w).outcome = .ok () →
        made.map Call.key = ls.map (fun x => (x.2, .transform)) ∧
          Applies p made (exec ((ls.map (·.1)).forM transformBy) p w).pipeline) := by
  induction ls generalizing p w with
  | nil =>
    refine ⟨[], fun cs => ?_, rfl, List.nil_prefix, fun _ => ⟨rfl, .refl p⟩⟩
    rw [List.append_nil]
    rfl
  | cons x ls ih =>
    obtain ⟨l, i⟩ := x
    have hx : exec ((((l, i) :: ls).map (·.1)).forM transformBy) p w =
        (exec (transformBy l) p w).next fun _ => (ls.map (·.1)).forM transformBy :=
      exec_bind _ _ _ _
    have hx' (cs : List Call) :
        exec ((((l, i) :: ls).map fun x => x.1.observed x.2).forM transformBy) p.observed ⟨cs, w⟩ =
          (exec (transformBy (l.observed i)) p.observed ⟨cs, w⟩).next
            fun _ => (ls.map fun x => x.1.observed x.2).forM transformBy :=
      exec_bind _ _ _ _
    have hrun : ((l.observed i).phases.transform p.observed.context).run =
        noted (.reporting i .transform) (l.phases.transform p.context).run := rfl
    simp only [exec_transformBy, hrun, answer_noted, worldAfter_noted] at hx hx'
    cases ha : answer (l.phases.transform p.context).run w with
    | error e =>
      simp only [ha, next_error] at hx hx'
      refine ⟨[⟨i, .transform, none⟩], fun cs => by rw [hx, hx']; rfl, by rw [hx], ?_, ?_⟩
      · exact List.prefix_append [(i, Phase.transform)] _
      · rw [hx]
        intro h
        cases h
    | ok r =>
      simp only [ha, next_ok] at hx hx'
      obtain ⟨made, hj, hplugins, ho, hok⟩ :=
        ih (p.apply r) (worldAfter (l.phases.transform p.context).run w)
      refine ⟨⟨i, .transform, some r⟩ :: made, fun cs => ?_, ?_, ?_, fun h => ?_⟩
      · rw [hx, hx', ← observed_apply, hj, List.append_assoc]
        rfl
      · rw [hx, hplugins]
        rfl
      · exact (List.prefix_cons_inj (i, Phase.transform)).2 ho
      · rw [hx] at h ⊢
        obtain ⟨hkey, happlies⟩ := hok h
        have hfirst : Applies p [⟨i, .transform, some r⟩] (p.apply r) := ⟨[r], rfl, rfl⟩
        exact ⟨congrArg _ hkey, hfirst.trans happlies⟩

theorem makes_transform (p : Pipeline (StateM W)) (w : W) :
    ∃ made, Makes [.transform] transform transform p w made ∧
      ((exec transform p w).outcome = .ok () → Applies p made (exec transform p w).pipeline) := by
  obtain ⟨made, hj, hplugins, ho, hok⟩ := forM_noted (p.indexed .transform) p w
  have hschedule : p.schedule [.transform] = (p.indexed .transform).map fun x => (x.2, .transform) :=
    List.append_nil _
  rw [← participants_eq, ← exec_transform] at hplugins hok
  refine ⟨made, ⟨fun cs => ?_, by rw [hplugins], hschedule ▸ ho, fun _ h => ?_⟩, fun h => (hok h).2⟩
  · rw [exec_transform, exec_transform, participants_observed, hj, ← participants_eq]
  · exact hschedule ▸ (hok h).1

theorem follows_transform :
    Follows [.transform] (transform : Running (StateM W) Unit) transform := by
  refine follows_of_makes fun p w => ?_
  obtain ⟨made, hm, -⟩ := makes_transform p w
  exact ⟨made, hm⟩

theorem applies_transform {p : Pipeline (StateM W)} {w : W}
    (h : (exec transform p w).outcome = .ok ()) :
    Applies p (calls transform p w) (exec transform p w).pipeline := by
  obtain ⟨made, hm, ha⟩ := makes_transform p w
  rw [hm.calls_eq]
  exact ha h

/-! ### Configuration -/

/-- Observed plugins are configured as the plugins are, whatever place the first of them has. -/
theorem configureAll_noted (baseDir : Path) (ls : List (LoadedPlugin (StateM W))) (k : Nat)
    (c : Context) (w : W) :
    ∃ made : List Call,
      (∀ cs, answer (configureAll baseDir ((ls.zipIdx k).map fun x => x.1.observed x.2) c) ⟨cs, w⟩ =
        ((answer (configureAll baseDir ls c) w).1,
          ((answer (configureAll baseDir ls c) w).2.1.zipIdx k).map (fun x => x.1.observed x.2),
          (answer (configureAll baseDir ls c) w).2.2) ∧
        worldAfter (configureAll baseDir ((ls.zipIdx k).map fun x => x.1.observed x.2) c) ⟨cs, w⟩ =
          ⟨cs ++ made, worldAfter (configureAll baseDir ls c) w⟩) ∧
      (answer (configureAll baseDir ls c) w).2.1.map (·.plugin) = ls.map (·.plugin) ∧
      (∀ call ∈ made, call.report = none) ∧
      made.map Call.key <+:
        ((ls.zipIdx k).filter (·.1.has .configure)).map (fun x => (x.2, .configure)) ∧
      ((answer (configureAll baseDir ls c) w).1 = .ok () → made.map Call.key =
        ((ls.zipIdx k).filter (·.1.has .configure)).map (fun x => (x.2, .configure))) := by
  induction ls generalizing k c w with
  | nil =>
    refine ⟨[], fun cs => ⟨rfl, ?_⟩, rfl, by simp, List.nil_prefix, fun _ => rfl⟩
    rw [List.append_nil]
    rfl
  | cons l ls ih =>
    simp only [List.zipIdx_cons, List.map_cons]
    cases hl : l.has .configure with
    | false =>
      obtain ⟨made, hj, hplugins, hsilent, ho, hok⟩ := ih (k + 1) c w
      have hblock : ((l, k) :: ls.zipIdx (k + 1)).filter (·.1.has .configure) =
          (ls.zipIdx (k + 1)).filter (·.1.has .configure) :=
        List.filter_cons_of_neg (by simp [hl])
      obtain ⟨ha, hw⟩ := configureAll_skip ls hl
      rw [ha, hw, hblock]
      refine ⟨made, fun cs => ?_, congrArg _ hplugins, hsilent, ho, hok⟩
      obtain ⟨ha', hw'⟩ := configureAll_skip (l := l.observed k) _ hl
      rw [ha', hw', (hj cs).1, (hj cs).2]
      exact ⟨rfl, rfl⟩
    | true =>
      generalize hx : l.plugin.configure ⟨l.plugin.id, baseDir, l.value⟩ c = x
      let x' : StateM (Journal W) (Except Failure (Phases (StateM (Journal W))) × Context) := do
        let r ← noted (.silent k .configure) x
        return (r.1.map (Phases.observed k), r.2)
      have hx' : (l.observed k).plugin.configure
          ⟨(l.observed k).plugin.id, baseDir, (l.observed k).value⟩ c = x' := by
        subst x' x
        rfl
      have hw' (cs : List Call) :
          worldAfter x' ⟨cs, w⟩ = ⟨cs ++ [⟨k, .configure, none⟩], worldAfter x w⟩ := rfl
      have hblock : ((l, k) :: ls.zipIdx (k + 1)).filter (·.1.has .configure) =
          (l, k) :: (ls.zipIdx (k + 1)).filter (·.1.has .configure) := List.filter_cons_of_pos hl
      rw [hblock]
      rcases ha : answer x w with ⟨e | f, c'⟩
      · have ha' (cs : List Call) : answer x' ⟨cs, w⟩ = (.error e, c') := by
          show ((answer x w).1.map _, (answer x w).2) = _
          rw [ha]
          rfl
        obtain ⟨hanswer, hworld⟩ := configureAll_error ls hl hx ha
        rw [hanswer, hworld]
        refine ⟨[⟨k, .configure, none⟩], fun cs => ?_, rfl, by simp, ?_, fun h => by cases h⟩
        · obtain ⟨hanswer', hworld'⟩ := configureAll_error (l := l.observed k) _ hl hx' (ha' cs)
          rw [hanswer', hworld', hw']
          exact ⟨rfl, rfl⟩
        · exact List.prefix_append [(k, Phase.configure)] _
      · have ha' (cs : List Call) : answer x' ⟨cs, w⟩ = (.ok (f.observed k), c') := by
          show ((answer x w).1.map _, (answer x w).2) = _
          rw [ha]
          rfl
        obtain ⟨made, hj, hplugins, hsilent, ho, hok⟩ := ih (k + 1) c' (worldAfter x w)
        obtain ⟨hanswer, hworld⟩ := configureAll_ok ls hl hx ha
        rw [hanswer, hworld]
        refine ⟨⟨k, .configure, none⟩ :: made, fun cs => ?_, ?_, ?_, ?_, fun h => ?_⟩
        · obtain ⟨hanswer', hworld'⟩ := configureAll_ok (l := l.observed k) _ hl hx' (ha' cs)
          rw [hanswer', hworld', hw', (hj _).1, (hj _).2, List.append_assoc]
          exact ⟨rfl, rfl⟩
        · exact congrArg _ hplugins
        · exact List.forall_mem_cons.2 ⟨rfl, hsilent⟩
        · exact (List.prefix_cons_inj (k, Phase.configure)).2 ho
        · exact congrArg _ (hok h)

/-- Calls in phases that do not answer with reports. -/
def Silent (made : List Call) : Prop := ∀ call ∈ made, call.report = none

theorem makes_configure (p : Pipeline (StateM W)) (w : W) :
    ∃ made, Makes [.configure] configure configure p w made ∧ Silent made := by
  obtain ⟨made, hj, hplugins, hsilent, ho, hok⟩ :=
    configureAll_noted p.baseDir p.plugins 0 p.context w
  have hschedule : p.schedule [.configure] = (p.indexed .configure).map fun x => (x.2, .configure) :=
    List.append_nil _
  refine ⟨made, ⟨fun cs => ?_, ?_, hschedule ▸ ho, fun _ h => ?_⟩, hsilent⟩
  · simp only [exec_configure, observed_baseDir, observed_plugins, observed_context, hj cs]
    rfl
  · rw [exec_configure]
    exact hplugins
  · rw [exec_configure] at h
    exact hschedule ▸ hok h

theorem follows_configure :
    Follows [.configure] (configure : Running (StateM W) Unit) configure := by
  refine follows_of_makes fun p w => ?_
  obtain ⟨made, hm, -⟩ := makes_configure p w
  exact ⟨made, hm⟩

theorem silent_configure (p : Pipeline (StateM W)) (w : W) : Silent (calls configure p w) := by
  obtain ⟨made, hm, hs⟩ := makes_configure p w
  rwa [hm.calls_eq]

/-! ### Collection -/

theorem unnoted_bind (x : StateM W α) (f : α → StateM W β) :
    unnoted (x >>= f) = unnoted x >>= fun a => unnoted (f a) := rfl

theorem foldlM_unnoted (f : α → β → StateM W α) (bs : List β) (a : α) :
    bs.foldlM (fun a b => unnoted (f a b)) a = unnoted (bs.foldlM f a) := by
  induction bs generalizing a with
  | nil => rfl
  | cons b bs ih =>
    rw [List.foldlM_cons, List.foldlM_cons, unnoted_bind]
    exact congrArg _ (funext ih)

/-- Visitors are not called by the pipeline, so a walk is not noted. -/
theorem walk_observed (vs : List (Visitor (StateM W))) (d : Schema.Document) (c : Context) :
    walk (vs.map observedVisitor) d c = unnoted (walk vs d c) := by
  simp only [walk, List.foldlM_map, observedVisitor, foldlM_unnoted, unnoted_bind]

/-- Plugins are all asked, one after the other. -/
theorem mapM_noted (phase : Phase) (f : LoadedPlugin (StateM W) → StateM W α)
    (f' : LoadedPlugin (StateM (Journal W)) → StateM (Journal W) β) (g : α → β)
    (hf : ∀ i l, f' (l.observed i) = (do return g (← noted (.silent i phase) (f l))))
    (ls : List (LoadedPlugin (StateM W) × Nat)) (cs : List Call) (w : W) :
    answer ((ls.map fun x => x.1.observed x.2).mapM f') ⟨cs, w⟩ =
        (answer ((ls.map (·.1)).mapM f) w).map g ∧
      worldAfter ((ls.map fun x => x.1.observed x.2).mapM f') ⟨cs, w⟩ =
        ⟨cs ++ ls.map (fun x => ⟨x.2, phase, none⟩), worldAfter ((ls.map (·.1)).mapM f) w⟩ := by
  induction ls generalizing cs w with
  | nil => simp
  | cons x ls ih =>
    obtain ⟨l, i⟩ := x
    obtain ⟨ha, hw⟩ := ih (cs ++ [⟨i, phase, none⟩]) (worldAfter (f l) w)
    simp only [List.map_cons, List.mapM_cons, hf, answer_bind, worldAfter_bind, answer_noted,
      worldAfter_noted, answer_pure, worldAfter_pure, Call.silent, ha, hw, List.append_assoc,
      List.singleton_append, and_self]

/-- The calls of collection: of all plugins that collect, then of all that have rules. -/
def collectCalls (p : Pipeline (StateM W)) : List Call :=
  (p.indexed .collect).map (fun x => ⟨x.2, .collect, none⟩) ++
    (p.indexed .validate).map (fun x => ⟨x.2, .validate, none⟩)

theorem collecting_observed (p : Pipeline (StateM W)) (d : Schema.Document) (cs : List Call) (w : W) :
    answer (collecting p.observed d) ⟨cs, w⟩ = answer (collecting p d) w ∧
      worldAfter (collecting p.observed d) ⟨cs, w⟩ =
        ⟨cs ++ p.collectCalls, worldAfter (collecting p d) w⟩ := by
  have hv := mapM_noted .collect (·.phases.collect) (·.phases.collect)
    (Option.map observedVisitor) (fun _ _ => rfl) (p.indexed .collect)
  have hr := mapM_noted .validate (·.phases.validators) (·.phases.validators)
    id (fun _ _ => rfl) (p.indexed .validate)
  simp only [← participants_eq, ← participants_observed, List.map_id] at hv hr
  simp only [collecting, answer_bind, worldAfter_bind, answer_pure, worldAfter_pure, hv, hr,
    List.reduceOption_map, observed_context, walk_observed,
    answer_unnoted, worldAfter_unnoted, collectCalls, List.append_assoc, and_self]

theorem key_collectCalls (p : Pipeline (StateM W)) :
    p.collectCalls.map Call.key = p.schedule [.collect, .validate] := by
  rw [collectCalls, List.map_append, List.map_map, List.map_map, schedule, List.flatMap_cons,
    List.flatMap_singleton]
  rfl

theorem silent_collectCalls (p : Pipeline (StateM W)) : Silent p.collectCalls := by
  simp only [Silent, collectCalls, List.forall_mem_append, List.forall_mem_map, implies_true,
    and_self]

theorem makes_collectAndValidate (p : Pipeline (StateM W)) (w : W) :
    ∃ made, Makes [.collect, .validate] collectAndValidate collectAndValidate p w made ∧
      Silent made := by
  have hx := exec_collectAndValidate p w
  have hx' (cs : List Call) := exec_collectAndValidate p.observed ⟨cs, w⟩
  simp only [observed_context, collecting_observed] at hx'
  cases hd : p.context.document with
  | none =>
    simp only [hd] at hx hx'
    refine ⟨[], ⟨fun cs => ?_, by rw [hx], List.nil_prefix, fun _ h => ?_⟩, by simp [Silent]⟩
    · rw [hx, hx', List.append_nil]
      rfl
    · rw [hx] at h
      cases h
  | some d =>
    simp only [hd] at hx hx'
    refine ⟨p.collectCalls, ⟨fun cs => ?_, by rw [hx], ?_, fun _ _ => p.key_collectCalls⟩, ?_⟩
    · rw [hx, hx']
      rfl
    · exact p.key_collectCalls ▸ List.prefix_rfl
    · exact p.silent_collectCalls

theorem follows_collectAndValidate :
    Follows [.collect, .validate] (collectAndValidate : Running (StateM W) Unit)
      collectAndValidate := by
  refine follows_of_makes fun p w => ?_
  obtain ⟨made, hm, -⟩ := makes_collectAndValidate p w
  exact ⟨made, hm⟩

theorem silent_collectAndValidate (p : Pipeline (StateM W)) (w : W) :
    Silent (calls collectAndValidate p w) := by
  obtain ⟨made, hm, hs⟩ := makes_collectAndValidate p w
  rwa [hm.calls_eq]

end TypeLoom.Pipeline
