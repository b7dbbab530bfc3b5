import Mathlib.Data.List.ReduceOption
import TypeLoom.Proofs.Pipeline.Execution

/-!
# Contexts that only grow

A context is changed by the operations that it offers, all of which add to it. Settings may be
replaced too, but whether the run is dry stays as it is. So problems are never taken back, a document
is not lost and a run that was started dry stays dry. Main statement: this holds of every step of a
run, if plugins keep to these operations.
-/

namespace TypeLoom.Collected.Context

/-- What a context can become by the operations it offers. -/
inductive Appended (c : Context) : Context → Prop
  | refl : Appended c c
  | settings {c' : Context} (s : Generation.Settings) (hs : s.dryRun = c'.settings.dryRun) :
      Appended c c' → Appended c { c' with settings := s }
  | document {c' : Context} (d : Schema.Document) : Appended c c' → Appended c (c'.addDocument d)
  | problems {c' : Context} (ps : List Schema.Problem) :
      Appended c c' → Appended c (c'.addProblems ps)
  | type {c' : Context} (t : SourcedType) : Appended c c' → Appended c (c'.addType t)
  | extension {c' : Context} (t : SourcedType) : Appended c c' → Appended c (c'.addExtension t)
  | plain {c' : Context} (f : CollectedField) : Appended c c' → Appended c (c'.addPlain f)
  | resolver {c' : Context} (f : ResolverField) : Appended c c' → Appended c (c'.addResolver f)
  | metadata {c' : Context} (id : FieldId) (m : FieldMetadata) :
      Appended c c' → Appended c (c'.setMetadata id m)
  | schemaBlock {c' : Context} : Appended c c' → Appended c c'.markSchemaBlock
  | root {c' : Context} (r : Root) : Appended c c' → Appended c (c'.bindRoot r)
  | operations {c' : Context} : Appended c c' → Appended c c'.resolveOperations
  | validation {c' : Context} : Appended c c' → Appended c c'.validate

/-- A later state of a context: problems were added at most, a dry run stays one, and a document
that was loaded is not lost. -/
structure Grows (c c' : Context) : Prop where
  problems : c.problems <+: c'.problems
  dryRun : c'.settings.dryRun = c.settings.dryRun
  loaded : c.document.isSome = true → c'.document.isSome = true

namespace Grows

variable {c c' c'' : Context}

theorem refl (c : Context) : Grows c c := ⟨List.prefix_rfl, rfl, id⟩

theorem trans (h : Grows c c') (h' : Grows c' c'') : Grows c c'' :=
  ⟨h.problems.trans h'.problems, h'.dryRun.trans h.dryRun, h'.loaded ∘ h.loaded⟩

theorem of_eq (hp : c'.problems = c.problems) (hs : c'.settings.dryRun = c.settings.dryRun)
    (hd : c'.document = c.document) : Grows c c' := ⟨hp ▸ List.prefix_rfl, hs, hd ▸ id⟩

end Grows

theorem grows_addProblems (c : Context) (ps : List Schema.Problem) : Grows c (c.addProblems ps) :=
  ⟨List.prefix_append _ _, rfl, id⟩

theorem grows_addDocument (c : Context) (d : Schema.Document) : Grows c (c.addDocument d) := by
  unfold addDocument
  split <;> exact ⟨List.prefix_rfl, rfl, fun _ => rfl⟩

theorem grows_addType (c : Context) (t : SourcedType) : Grows c (c.addType t) := by
  unfold addType
  split <;> exact .of_eq rfl rfl rfl

theorem grows_addExtension (c : Context) (t : SourcedType) : Grows c (c.addExtension t) := by
  unfold addExtension
  split <;> exact .of_eq rfl rfl rfl

theorem grows_bindRoot (c : Context) (r : Root) : Grows c (c.bindRoot r) := by
  unfold bindRoot
  split
  · exact c.grows_addProblems _
  · exact .of_eq rfl rfl rfl

/-- Each operation takes nothing back, so no sequence of them does. -/
theorem Appended.grows {c c' : Context} (h : Appended c c') : Grows c c' := by
  induction h with
  | refl => exact .refl c
  | settings s hs _ ih => exact ih.trans (.of_eq rfl hs rfl)
  | document d _ ih => exact ih.trans (grows_addDocument _ d)
  | problems ps _ ih => exact ih.trans (grows_addProblems _ ps)
  | type t _ ih => exact ih.trans (grows_addType _ t)
  | extension t _ ih => exact ih.trans (grows_addExtension _ t)
  | plain f _ ih => exact ih.trans (.of_eq rfl rfl rfl)
  | resolver f _ ih => exact ih.trans (.of_eq rfl rfl rfl)
  | metadata id m _ ih => exact ih.trans (.of_eq rfl rfl rfl)
  | schemaBlock _ ih => exact ih.trans (.of_eq rfl rfl rfl)
  | root r _ ih => exact ih.trans (grows_bindRoot _ r)
  | operations _ ih => exact ih.trans (.of_eq rfl rfl rfl)
  | validation _ ih => exact ih.trans (grows_addProblems _ _)

theorem Appended.trans {c c' c'' : Context} (h : Appended c c') (h' : Appended c' c'') :
    Appended c c'' := by
  induction h' with
  | refl => exact h
  | settings s hs _ ih => exact ih.settings s hs
  | document d _ ih => exact ih.document d
  | problems ps _ ih => exact ih.problems ps
  | type t _ ih => exact ih.type t
  | extension t _ ih => exact ih.extension t
  | plain f _ ih => exact ih.plain f
  | resolver f _ ih => exact ih.resolver f
  | metadata id m _ ih => exact ih.metadata id m
  | schemaBlock _ ih => exact ih.schemaBlock
  | root r _ ih => exact ih.root r
  | operations _ ih => exact ih.operations
  | validation _ ih => exact ih.validation

theorem appended_foldl {α : Type} {f : Context → α → Context} (hf : ∀ c a, Appended c (f c a))
    (as : List α) (c : Context) : Appended c (as.foldl f c) := by
  induction as generalizing c with
  | nil => exact .refl
  | cons a as ih => exact (hf c a).trans (ih (f c a))

/-! ### The collector

Definitions are collected by the operations of a context. -/

theorem appended_collectOutput (file : Path) (parent : String) (module : Option ModuleRequest)
    (c : Context) (id : FieldId) (f : Schema.Field) :
    Appended c (collectOutput file parent module c id f) := by
  unfold collectOutput
  dsimp only
  cases classify file f with
  | plain => exact (Appended.refl.metadata _ _).plain _
  | resolver name => exact (Appended.refl.metadata _ _).resolver _
  | malformed p => exact (Appended.refl.metadata _ _).problems [p]

theorem appended_collectOutputs (file : Path) (parent : String) (module : Option ModuleRequest)
    (definition : Nat) (fields : List Schema.Field) (c : Context) :
    Appended c (c.collectOutputs file parent module definition fields) :=
  appended_foldl (fun c (f, i) => appended_collectOutput file parent module c ⟨definition, i⟩ f) _ c

theorem appended_collectRequest (file : Path) (ds : List Schema.Directive) (c : Context) :
    Appended c (c.collectRequest file ds).1 := by
  unfold collectRequest
  split
  · exact .refl
  · split
    · exact .refl
    · exact Appended.refl.problems [_]

theorem appended_collectFields (file : Path) (definition : Nat) (t : Schema.TypeDeclaration)
    (c : Context) : Appended c (c.collectFields file definition t) := by
  unfold collectFields
  split
  · exact (appended_collectRequest _ _ _).trans (appended_collectOutputs _ _ _ _ _ _)
  · exact appended_collectOutputs _ _ _ _ _ _
  · exact appended_foldl (fun _ _ => Appended.refl.plain _) _ _
  · exact .refl

theorem appended_collect (definition : Nat) (d : Schema.SourcedDefinition) (c : Context) :
    Appended c (c.collect definition d) := by
  unfold collect
  split
  · exact Appended.refl.schemaBlock.trans (appended_foldl (fun _ r => Appended.refl.root r) _ _)
  · exact .refl
  · exact (appended_collectFields _ _ _ _).type _
  · exact (appended_collectFields _ _ _ _).extension _

end TypeLoom.Collected.Context

namespace TypeLoom.Pipeline

open Collected Collected.Context

variable {W α β : Type}

/-- A visitor that changes contexts by their operations only. -/
structure AppendingVisitor (v : Visitor (StateM W)) : Prop where
  visit : ∀ i x c w, Appended c (answer (v.visit i x c) w)
  finish : ∀ c w, Appended c (answer (v.finish c) w)

theorem appendingVisitor_collector : AppendingVisitor (collector (StateM W)) where
  visit i x c _ := appended_collect i x c
  finish _ _ := Appended.refl.operations

/-- Phases whose visitor changes contexts by their operations only. The other phases see the context
and answer with a report. -/
def AppendingPhases (f : Phases (StateM W)) : Prop :=
  ∀ w v, answer f.collect w = some v → AppendingVisitor v

/-- A plugin that changes contexts by their operations only, whatever else it does. -/
structure AppendingPlugin (l : Plugin (StateM W)) : Prop where
  configure : ∀ t c w, Appended c (answer (l.configure t c) w).2
  configured : ∀ t c w f, (answer (l.configure t c) w).1 = .ok f → AppendingPhases f

/-- A pipeline of plugins that change contexts by their operations only. -/
def Appending (p : Pipeline (StateM W)) : Prop :=
  ∀ l ∈ p.plugins, AppendingPlugin l.plugin ∧ AppendingPhases l.phases

/-- What a pipeline of such plugins is after some step. -/
structure Advances (p q : Pipeline (StateM W)) : Prop where
  context : p.context.Grows q.context
  appending : q.Appending

theorem Advances.trans {p q r : Pipeline (StateM W)} (h : Advances p q) (h' : Advances q r) :
    Advances p r := ⟨h.context.trans h'.context, h'.appending⟩

/-- A step that takes nothing back. -/
def Advancing (x : Running (StateM W) α) : Prop :=
  ∀ p w, p.Appending → Advances p (exec x p w).pipeline

/-- A step that follows takes nothing back of what the one before it left. -/
theorem Advancing.advances_bind {x : Running (StateM W) α} {f : α → Running (StateM W) β}
    (hx : Advancing x) (hf : ∀ a, Advancing (f a)) {p : Pipeline (StateM W)} (hp : p.Appending)
    (w : W) : Advances (exec x p w).pipeline (exec (x >>= f) p w).pipeline := by
  have h := hx p w hp
  rw [exec_bind]
  generalize exec x p w = r at h ⊢
  obtain ⟨outcome, q, v⟩ := r
  cases outcome with
  | error e => exact ⟨.refl q.context, h.appending⟩
  | ok a => exact hf a q v h.appending

theorem Advancing.bind {x : Running (StateM W) α} {f : α → Running (StateM W) β}
    (hx : Advancing x) (hf : ∀ a, Advancing (f a)) : Advancing (x >>= f) :=
  fun p w hp => (hx p w hp).trans (hx.advances_bind hf hp w)

theorem advancing_pure (a : α) : Advancing (pure a : Running (StateM W) α) :=
  fun p _ hp => ⟨.refl p.context, hp⟩

theorem advancing_get : Advancing (get : Running (StateM W) (Pipeline (StateM W))) :=
  fun p _ hp => ⟨.refl p.context, hp⟩

/-! ### Reports -/

theorem grows_foldl_addDocument (ds : List Schema.Document) (c : Context) :
    c.Grows (ds.foldl addDocument c) := by
  induction ds generalizing c with
  | nil => exact .refl c
  | cons d ds ih => exact (c.grows_addDocument d).trans (ih _)

theorem advances_apply {p : Pipeline (StateM W)} (hp : p.Appending) (r : Report) :
    Advances p (p.apply r) :=
  ⟨(grows_foldl_addDocument r.documents p.context).trans (grows_addProblems _ _), hp⟩

theorem advances_foldl_apply {p : Pipeline (StateM W)} (hp : p.Appending) (rs : List Report) :
    Advances p (rs.foldl apply p) := by
  induction rs generalizing p with
  | nil => exact ⟨.refl p.context, hp⟩
  | cons r rs ih => exact (advances_apply hp r).trans (ih (advances_apply hp r).appending)

theorem advancing_filePhase (phase : Phase)
    (act : Phases (StateM W) → Context → Action (StateM W) Report) :
    Advancing (filePhase phase act) := by
  intro p w hp
  rw [exec_filePhase]
  obtain ⟨_ | rs, v⟩ := gather (fun l => act l.phases p.context) (p.participants phase) w
  · exact ⟨.refl p.context, hp⟩
  · exact advances_foldl_apply hp rs

theorem advancing_transformBy (l : LoadedPlugin (StateM W)) : Advancing (transformBy l) := by
  intro p w hp
  rw [exec_transformBy]
  cases answer (l.phases.transform p.context).run w with
  | error e => exact ⟨.refl p.context, hp⟩
  | ok r => exact advances_apply hp r

theorem advancing_forM (ls : List (LoadedPlugin (StateM W))) : Advancing (ls.forM transformBy) := by
  induction ls with
  | nil => exact advancing_pure ()
  | cons l ls ih =>
    show Advancing (transformBy l >>= fun _ => ls.forM transformBy)
    exact (advancing_transformBy l).bind fun _ => ih

theorem advancing_transform : Advancing (transform : Running (StateM W) Unit) := by
  intro p w hp
  rw [exec_transform]
  exact advancing_forM _ p w hp

/-! ### Configuration -/

theorem advancing_configure : Advancing (configure : Running (StateM W) Unit) := by
  intro p w hp
  rw [exec_configure]
  obtain ⟨hplugins, hcontext⟩ := configureAll_invariant p.plugins p.baseDir
    (I := fun c _ => p.context.Grows c)
    (fun l t c w hl hc => ⟨hc.trans (hl.1.configure t c w).grows,
      fun f hf => ⟨hl.1, hl.1.configured t c w f hf⟩⟩) hp (.refl p.context)
  exact ⟨hcontext, hplugins⟩

/-! ### Collection -/

/-- Contexts handed from one item to the next grow if each item makes them grow. -/
theorem grows_foldlM {f : Context → β → StateM W Context} {bs : List β}
    (h : ∀ b ∈ bs, ∀ (c : Context) w, c.Grows (answer (f c b) w)) (c : Context) (w : W) :
    c.Grows (answer (bs.foldlM f c) w) := by
  induction bs generalizing c w with
  | nil => exact .refl c
  | cons b bs ih =>
    obtain ⟨hb, hbs⟩ := List.forall_mem_cons.1 h
    rw [List.foldlM_cons, answer_bind]
    exact (hb c w).trans (ih hbs _ _)

theorem grows_walk {vs : List (Visitor (StateM W))} (h : ∀ v ∈ vs, AppendingVisitor v)
    (d : Schema.Document) (c : Context) (w : W) : c.Grows (answer (walk vs d c) w) := by
  rw [walk, answer_bind]
  refine Grows.trans ?_ (grows_foldlM (fun v hv c w => ((h v hv).finish c w).grows) _ _)
  exact grows_foldlM (fun x _ => grows_foldlM fun v hv c w => ((h v hv).visit x.2 x.1 c w).grows) _ _

theorem grows_checked (rules : List Rule) (c : Context) : c.Grows (checked rules c) := by
  unfold checked
  refine Grows.trans ?_ (grows_addProblems _ _)
  induction rules generalizing c with
  | nil => exact .refl c
  | cons rule rules ih => exact (c.grows_addProblems (rule.check c)).trans (ih _)

/-- What a list of actions answers was answered by one of them. -/
theorem exists_of_mem_answer_mapM {f : β → StateM W α} {bs : List β} {w : W} {a : α}
    (h : a ∈ answer (bs.mapM f) w) : ∃ b ∈ bs, ∃ v, answer (f b) v = a := by
  induction bs generalizing w with
  | nil => cases h
  | cons b bs ih =>
    rw [List.mapM_cons, answer_bind, answer_bind, answer_pure] at h
    rcases List.mem_cons.1 h with rfl | h
    · exact ⟨b, List.mem_cons_self, w, rfl⟩
    · obtain ⟨b', hb', v, hv⟩ := ih h
      exact ⟨b', List.mem_cons_of_mem b hb', v, hv⟩

theorem grows_collecting {p : Pipeline (StateM W)} (hp : p.Appending) (d : Schema.Document) (w : W) :
    p.context.Grows (answer (collecting p d) w) := by
  let visitors := (p.participants .collect).mapM (·.phases.collect)
  have hv : ∀ v ∈ (answer visitors w).reduceOption, AppendingVisitor v := by
    intro v hv
    obtain ⟨l, hl, u, hu⟩ := exists_of_mem_answer_mapM (List.reduceOption_mem_iff.1 hv)
    exact (hp l (List.mem_of_mem_filter hl)).2 u v hu
  rw [collecting, answer_bind, answer_bind, answer_bind, answer_pure]
  exact (grows_walk hv d p.context _).trans (grows_checked _ _)

theorem advancing_collectAndValidate : Advancing (collectAndValidate : Running (StateM W) Unit) := by
  intro p w hp
  rw [exec_collectAndValidate]
  cases p.context.document with
  | none => exact ⟨.refl p.context, hp⟩
  | some d => exact ⟨grows_collecting hp d w, hp⟩

/-! ### Checkpoints and whole runs -/

theorem advancing_checkpoint : Advancing (checkpoint : Running (StateM W) Unit) := by
  intro p w hp
  rw [exec_checkpoint]
  split <;> exact ⟨.refl p.context, hp⟩

theorem advancing_moduleCheckpoint : Advancing (moduleCheckpoint : Running (StateM W) Unit) := by
  intro p w hp
  rw [exec_moduleCheckpoint]
  split <;> exact ⟨.refl p.context, hp⟩

theorem advancing_untilFirstCheckpoint :
    Advancing (untilFirstCheckpoint : Running (StateM W) Unit) :=
  advancing_configure.bind fun _ => (advancing_filePhase _ _).bind fun _ =>
    advancing_collectAndValidate

theorem advancing_untilSecondCheckpoint :
    Advancing (untilSecondCheckpoint : Running (StateM W) Unit) :=
  advancing_untilFirstCheckpoint.bind fun _ => advancing_checkpoint.bind fun _ =>
    advancing_filePhase _ _

theorem advancing_afterCheckpoints : Advancing (afterCheckpoints : Running (StateM W) Unit) :=
  advancing_transform.bind fun _ => (advancing_filePhase _ _).bind fun _ =>
    advancing_moduleCheckpoint

/-- What follows the last checkpoint takes nothing back either. -/
theorem advances_concluded {r : Result W Unit} (hr : r.pipeline.Appending) :
    Advances r.pipeline r.concluded.pipeline := by
  have hrefl : Advances r.pipeline r.pipeline := ⟨.refl _, hr⟩
  unfold Result.concluded
  split
  · exact hrefl
  · split
    · split
      · exact hrefl
      · exact advancing_afterCheckpoints.bind (fun _ => advancing_get.bind fun _ => advancing_pure _)
          _ _ hr
    · exact hrefl

theorem advancing_phases : Advancing (phases : Running (StateM W) Summary) := by
  intro p w hp
  have h := advancing_untilSecondCheckpoint p w hp
  rw [exec_phases]
  exact h.trans (advances_concluded h.appending)

end TypeLoom.Pipeline
