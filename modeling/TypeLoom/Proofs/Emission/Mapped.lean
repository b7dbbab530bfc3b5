import TypeLoom.Generation.TypeMapping
import TypeLoom.Proofs.Declaration.Ordered

/-!
# Mapping as a value with its needs

A mapped value and what it needs are computed side by side: the value of a sequence is made from
the values of its parts, and its needs are those of its parts one after the other, as are the
problems found. What it needs is what it is made to import.
-/

namespace TypeLoom.Generation.Mapped

open Declaration

variable {α β : Type}

@[simp]
theorem value_pure (a : α) : (pure a : Mapped α).value = a := rfl

@[simp]
theorem needs_pure (a : α) : (pure a : Mapped α).needs = [] := rfl

@[simp]
theorem problems_pure (a : α) : (pure a : Mapped α).problems = [] := rfl

@[simp]
theorem value_bind (m : Mapped α) (f : α → Mapped β) : (m >>= f).value = (f m.value).value := rfl

@[simp]
theorem needs_bind (m : Mapped α) (f : α → Mapped β) :
    (m >>= f).needs = m.needs ++ (f m.value).needs := rfl

@[simp]
theorem problems_bind (m : Mapped α) (f : α → Mapped β) :
    (m >>= f).problems = m.problems ++ (f m.value).problems := rfl

@[simp]
theorem value_map (f : α → β) (m : Mapped α) : (f <$> m).value = f m.value := rfl

@[simp]
theorem needs_map (f : α → β) (m : Mapped α) : (f <$> m).needs = m.needs :=
  List.append_nil m.needs

@[simp]
theorem problems_map (f : α → β) (m : Mapped α) : (f <$> m).problems = m.problems :=
  List.append_nil m.problems

instance : LawfulMonad Mapped :=
  LawfulMonad.mk' Mapped
    (fun m => by simp [Functor.map])
    (fun _ _ => rfl)
    (fun m f g => by simp [bind, List.append_assoc])

@[simp]
theorem value_mapM (f : α → Mapped β) (xs : List α) :
    (xs.mapM f).value = xs.map fun x => (f x).value := by
  induction xs with
  | nil => rfl
  | cons x xs ih => simp [List.mapM_cons, ih]

@[simp]
theorem needs_mapM (f : α → Mapped β) (xs : List α) :
    (xs.mapM f).needs = xs.flatMap fun x => (f x).needs := by
  induction xs with
  | nil => rfl
  | cons x xs ih => simp [List.mapM_cons, ih]

@[simp]
theorem problems_mapM (f : α → Mapped β) (xs : List α) :
    (xs.mapM f).problems = xs.flatMap fun x => (f x).problems := by
  induction xs with
  | nil => rfl
  | cons x xs ih => simp [List.mapM_cons, ih]

/-- The names that are needed, from wherever. -/
def names (m : Mapped α) : List String := m.needs.map Prod.snd

@[simp]
theorem names_pure (a : α) : (pure a : Mapped α).names = [] := rfl

@[simp]
theorem names_bind (m : Mapped α) (f : α → Mapped β) :
    (m >>= f).names = m.names ++ (f m.value).names := by
  simp [names]

@[simp]
theorem names_map (f : α → β) (m : Mapped α) : (f <$> m).names = m.names := by
  simp [names]

@[simp]
theorem names_mapM (f : α → Mapped β) (xs : List α) :
    (xs.mapM f).names = xs.flatMap fun x => (f x).names := by
  simp [names, List.map_flatMap]

theorem dependencies_eq (m : Mapped α) :
    m.dependencies = m.needs.foldl (fun d need => d.add need.1 need.2) .empty := rfl

/-- What is needed is what is imported. -/
theorem has_dependencies (m : Mapped α) {path name : String} :
    m.dependencies.Has path name ↔ (path, name) ∈ m.needs := by
  have hrun : ∀ (needs : List (String × String)) (d : Dependencies),
      (needs.foldl (fun d need => d.add need.1 need.2) d).Has path name ↔
        (path, name) ∈ needs ∨ d.Has path name := by
    intro needs
    induction needs with
    | nil => simp
    | cons need needs ih =>
      intro d
      obtain ⟨p, n⟩ := need
      rw [List.foldl_cons, ih, Dependencies.has_add, List.mem_cons, Prod.mk.injEq, or_left_comm,
        or_assoc]
  rw [dependencies_eq, hrun]
  simp [Dependencies.Has, Dependencies.empty]

theorem tight_dependencies (m : Mapped α) : m.dependencies.Tight := by
  have hrun : ∀ (needs : List (String × String)) (d : Dependencies), d.Tight →
      (needs.foldl (fun d need => d.add need.1 need.2) d).Tight := by
    intro needs
    induction needs with
    | nil => exact fun _ hd => hd
    | cons need needs ih => exact fun d hd => ih _ (hd.add need.1 need.2)
  rw [dependencies_eq]
  exact hrun m.needs _ (by simp [Dependencies.Tight, Dependencies.empty])

theorem ordered_dependencies (m : Mapped α) : m.dependencies.Ordered := by
  have hrun : ∀ (needs : List (String × String)) (d : Dependencies), d.Ordered →
      (needs.foldl (fun d need => d.add need.1 need.2) d).Ordered := by
    intro needs
    induction needs with
    | nil => exact fun _ hd => hd
    | cons need needs ih => exact fun d hd => ih _ (hd.add need.1 need.2)
  rw [dependencies_eq]
  exact hrun m.needs _ Dependencies.ordered_empty

/-- In whatever order names are needed, the same is imported. -/
theorem dependencies_eq_of_perm {m : Mapped α} {m' : Mapped β} (h : m.needs.Perm m'.needs) :
    m.dependencies = m'.dependencies := by
  refine m.ordered_dependencies.ext m'.ordered_dependencies m.tight_dependencies
    m'.tight_dependencies fun path name => ?_
  rw [has_dependencies, has_dependencies, h.mem_iff]

end TypeLoom.Generation.Mapped
