import TypeLoom.Proofs.Pipeline.Execution

/-!
# Runs that keep abreast

Two runs are compared step by step. Main statement: as long as the file system fails in neither of
them, steps that keep two runs abreast do so one after the other, and where one run fails the other
fails for the same reason.
-/

namespace TypeLoom.Pipeline

variable {W α β γ δ : Type}

/-- The failures for which the texts of a schema are to blame. -/
def Textual (e : Failure) : Prop :=
  (∃ ps, e = .schema ps) ∨ ∃ file problem, e = .read (.undecodable file problem)

/-- Answers that agree, as values do that are related or as the same failure does, one of those for
which `E` holds, unless the file system failed for one of them. -/
inductive Alike (E : Failure → Prop) (R : α → β → Prop) : Except Failure α → Except Failure β → Prop
  | ok {a : α} {b : β} (h : R a b) : Alike E R (.ok a) (.ok b)
  | error {e : Failure} (h : E e) : Alike E R (.error e) (.error e)
  | left (p : Path) (problem : FileProblem) (y : Except Failure β) :
      Alike E R (.error (.fileSystem p problem)) y
  | right (p : Path) (problem : FileProblem) (x : Except Failure α) :
      Alike E R x (.error (.fileSystem p problem))

variable {E : Failure → Prop}

namespace Alike

variable {R : α → β → Prop} {S : γ → δ → Prop} {x : Except Failure α} {y : Except Failure β}

theorem refl {x : Except Failure α} (h : ∀ e, x = .error e → E e) : Alike E Eq x x := by
  cases x with
  | ok a => exact .ok rfl
  | error e => exact .error (h e rfl)

theorem bind {f : α → Except Failure γ} {g : β → Except Failure δ} (h : Alike E R x y)
    (hf : ∀ a b, x = .ok a → y = .ok b → R a b → Alike E S (f a) (g b)) :
    Alike E S (x >>= f) (y >>= g) := by
  cases h with
  | ok h => exact hf _ _ rfl rfl h
  | error h => exact .error h
  | left p problem y => exact .left p problem _
  | right p problem x => exact .right p problem _

theorem imp {E' : Failure → Prop} {R' : α → β → Prop} (h : Alike E R x y) (hE : ∀ e, E e → E' e)
    (hR : ∀ a b, R a b → R' a b) : Alike E' R' x y := by
  cases h with
  | ok h => exact .ok (hR _ _ h)
  | error h => exact .error (hE _ h)
  | left p problem y => exact .left p problem y
  | right p problem x => exact .right p problem x

theorem map {f : α → γ} {g : β → δ} (h : Alike E R x y) (hf : ∀ a b, R a b → S (f a) (g b)) :
    Alike E S (x.map f) (y.map g) := h.bind fun a b _ _ hab => .ok (hf a b hab)

end Alike

/-- A relation between two runs, by their pipelines and worlds. -/
abbrev Relation (W : Type) : Type := Pipeline (StateM W) → W → Pipeline (StateM W) → W → Prop

variable {I J K : Relation W}

/-- A step that two runs take abreast. -/
def Paces (E : Failure → Prop) (I J : Relation W) (x : Running (StateM W) Unit) : Prop :=
  ∀ p w p' w', I p w p' w' → Alike E
    (fun _ _ => J (exec x p w).pipeline (exec x p w).world (exec x p' w').pipeline
      (exec x p' w').world)
    (exec x p w).outcome (exec x p' w').outcome

theorem Paces.bind {x y : Running (StateM W) Unit} (hx : Paces E I J x) (hy : Paces E J K y) :
    Paces E I K (x >>= fun _ => y) := by
  intro p w p' w' h
  have hfirst := hx p w p' w' h
  rw [exec_bind, exec_bind]
  generalize exec x p w = r at hfirst ⊢
  generalize exec x p' w' = r' at hfirst ⊢
  obtain ⟨outcome, q, v⟩ := r
  obtain ⟨outcome', q', v'⟩ := r'
  cases hfirst with
  | ok hJ => exact hy q v q' v' hJ
  | error h => exact .error h
  | left path problem => exact .left path problem _
  | right path problem => exact .right path problem _

theorem paces_checkpoint (hE : ∀ ps, E (.schema ps))
    (h : ∀ p w p' w', I p w p' w' → p'.context.problems = p.context.problems) :
    Paces E I I checkpoint := by
  intro p w p' w' hI
  rw [exec_checkpoint, exec_checkpoint, h p w p' w' hI]
  split
  · exact .ok hI
  · exact .error (hE _)

/-- Plugins that act in two runs, in the first of which they leave the world as it is. -/
theorem gather_alike {act act' : LoadedPlugin (StateM W) → Action (StateM W) Report}
    {R : Report → Report → Prop} {S : W → Prop} {ls : List (LoadedPlugin (StateM W))} {w w' : W}
    (h : ∀ l ∈ ls, ∀ w', S w' → worldAfter (act l).run w = w ∧
      Alike E (fun r r' => R r r' ∧ S (worldAfter (act' l).run w')) (answer (act l).run w)
        (answer (act' l).run w'))
    (hS : S w') :
    Alike E (fun rs rs' => List.Forall₂ R rs rs' ∧ S (gather act' ls w').2) (gather act ls w).1
      (gather act' ls w').1 := by
  induction ls generalizing w' with
  | nil => exact .ok ⟨.nil, hS⟩
  | cons l ls ih =>
    obtain ⟨hl, hls⟩ := List.forall_mem_cons.mp h
    obtain ⟨hstill, halike⟩ := hl w' hS
    rw [gather, gather, hstill]
    generalize answer (act l).run w = x at halike
    generalize answer (act' l).run w' = y at halike
    cases halike with
    | ok hR => exact (ih hls hR.2).map fun _ _ hrs => ⟨.cons hR.1 hrs.1, hrs.2⟩
    | error h => exact .error h
    | left p problem y => exact .left p problem _
    | right p problem x => exact .right p problem _

theorem gather_still {act : LoadedPlugin (StateM W) → Action (StateM W) Report}
    {ls : List (LoadedPlugin (StateM W))} {w : W}
    (h : ∀ l ∈ ls, worldAfter (act l).run w = w) : (gather act ls w).2 = w := by
  induction ls with
  | nil => rfl
  | cons l ls ih =>
    obtain ⟨hl, hls⟩ := List.forall_mem_cons.mp h
    rw [gather, hl]
    cases answer (act l).run w with
    | error e => rfl
    | ok r => exact ih hls

end TypeLoom.Pipeline
