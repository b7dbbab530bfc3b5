import Mathlib.Data.List.Forall2

/-!
# Actions in a world

An action in a world gives an answer and leaves a world.
-/

namespace TypeLoom

variable {W α β : Type}

/-- What an action answers in a world. -/
def answer (x : StateM W α) (w : W) : α := (x w : α × W).1

/-- The world after an action. -/
def worldAfter (x : StateM W α) (w : W) : W := (x w : α × W).2

@[simp]
theorem answer_pure (a : α) (w : W) : answer (pure a : StateM W α) w = a := rfl

@[simp]
theorem worldAfter_pure (a : α) (w : W) : worldAfter (pure a : StateM W α) w = w := rfl

@[simp]
theorem answer_bind (x : StateM W α) (f : α → StateM W β) (w : W) :
    answer (x >>= f) w = answer (f (answer x w)) (worldAfter x w) := rfl

@[simp]
theorem worldAfter_bind (x : StateM W α) (f : α → StateM W β) (w : W) :
    worldAfter (x >>= f) w = worldAfter (f (answer x w)) (worldAfter x w) := rfl

/-- Actions that only answer do so one after the other. -/
theorem mapM_eq_pure {f : α → StateM W β} {as : List α} {P : β → Prop}
    (h : ∀ a ∈ as, ∃ b, f a = pure b ∧ P b) : ∃ bs, as.mapM f = pure bs ∧ ∀ b ∈ bs, P b := by
  induction as with
  | nil => exact ⟨[], rfl, nofun⟩
  | cons a as ih =>
    obtain ⟨⟨b, hb, hP⟩, has⟩ := List.forall_mem_cons.1 h
    obtain ⟨bs, hbs, hall⟩ := ih has
    refine ⟨b :: bs, ?_, List.forall_mem_cons.2 ⟨hP, hall⟩⟩
    rw [List.mapM_cons, hb, hbs]
    rfl

theorem foldlM_eq_pure {f : β → α → StateM W β} {as : List α} {R : β → β → Prop}
    (hrefl : ∀ b, R b b) (htrans : ∀ {b b' b''}, R b b' → R b' b'' → R b b'')
    (h : ∀ a ∈ as, ∀ b, ∃ b', f b a = pure b' ∧ R b b') (b : β) :
    ∃ b', as.foldlM f b = pure b' ∧ R b b' := by
  induction as generalizing b with
  | nil => exact ⟨b, rfl, hrefl b⟩
  | cons a as ih =>
    obtain ⟨ha, has⟩ := List.forall_mem_cons.1 h
    obtain ⟨b', hb', hR⟩ := ha b
    obtain ⟨b'', hb'', hR'⟩ := ih has b'
    refine ⟨b'', ?_, htrans hR hR'⟩
    rw [List.foldlM_cons, hb']
    exact hb''

/-- Actions that only answer, and do so alike before and after a change of what is given to them. -/
theorem foldlM_hom {f : β → α → StateM W β} {g : β → β} {as : List α}
    (h : ∀ a ∈ as, ∀ b, ∃ b', f b a = pure b' ∧ f (g b) a = pure (g b')) (b : β) :
    ∃ b', as.foldlM f b = pure b' ∧ as.foldlM f (g b) = pure (g b') := by
  induction as generalizing b with
  | nil => exact ⟨b, rfl, rfl⟩
  | cons a as ih =>
    obtain ⟨ha, has⟩ := List.forall_mem_cons.1 h
    obtain ⟨b', hb', hg⟩ := ha b
    obtain ⟨b'', hb'', hg'⟩ := ih has b'
    refine ⟨b'', ?_, ?_⟩
    · rw [List.foldlM_cons, hb']
      exact hb''
    · rw [List.foldlM_cons, hg]
      exact hg'

/-- Items that are taken to others one by one. -/
theorem mapM_eq_ok_iff {ε : Type} {f : α → Except ε β} {as : List α} {bs : List β} :
    as.mapM f = .ok bs ↔ List.Forall₂ (fun a b => f a = .ok b) as bs := by
  induction as generalizing bs with
  | nil => simp [pure, Except.pure, eq_comm]
  | cons a as ih =>
    rw [List.mapM_cons]
    cases ha : f a with
    | error e => simp [bind, Except.bind, List.forall₂_cons_left_iff, ha]
    | ok b =>
      cases has : as.mapM f with
      | error e =>
        have hnone : ∀ bs, ¬ List.Forall₂ (fun a b => f a = .ok b) as bs := fun bs h => by
          rw [ih.2 h] at has
          cases has
        simp [bind, Except.bind, List.forall₂_cons_left_iff, hnone]
      | ok bs' =>
        simp [bind, Except.bind, pure, Except.pure, List.forall₂_cons_left_iff, ha, ← ih, has, eq_comm]

/-! ### Actions that may fail -/

section

variable {ε : Type}

@[simp]
theorem answer_run_pure (a : α) (w : W) :
    answer (pure a : ExceptT ε (StateM W) α).run w = .ok a := rfl

@[simp]
theorem worldAfter_run_pure (a : α) (w : W) :
    worldAfter (pure a : ExceptT ε (StateM W) α).run w = w := rfl

@[simp]
theorem answer_run_lift (x : StateM W α) (w : W) :
    answer (liftM x : ExceptT ε (StateM W) α).run w = .ok (answer x w) := rfl

@[simp]
theorem worldAfter_run_lift (x : StateM W α) (w : W) :
    worldAfter (liftM x : ExceptT ε (StateM W) α).run w = worldAfter x w := rfl

theorem answer_run_bind (x : ExceptT ε (StateM W) α) (f : α → ExceptT ε (StateM W) β) (w : W) :
    answer (x >>= f).run w =
      match answer x.run w with
      | .ok a => answer (f a).run (worldAfter x.run w)
      | .error e => .error e := by
  show answer (x.run >>= ExceptT.bindCont f) w = _
  rw [answer_bind]
  cases answer x.run w <;> rfl

theorem worldAfter_run_bind (x : ExceptT ε (StateM W) α) (f : α → ExceptT ε (StateM W) β) (w : W) :
    worldAfter (x >>= f).run w =
      match answer x.run w with
      | .ok a => worldAfter (f a).run (worldAfter x.run w)
      | .error _ => worldAfter x.run w := by
  show worldAfter (x.run >>= ExceptT.bindCont f) w = _
  rw [worldAfter_bind]
  cases answer x.run w <;> rfl

/-- What succeeds in two steps succeeds in each. -/
theorem run_bind_ok {x : ExceptT ε (StateM W) α} {f : α → ExceptT ε (StateM W) β} {b : β} {w : W}
    (h : answer (x >>= f).run w = .ok b) :
    ∃ a, answer x.run w = .ok a ∧ answer (f a).run (worldAfter x.run w) = .ok b ∧
      worldAfter (x >>= f).run w = worldAfter (f a).run (worldAfter x.run w) := by
  rw [answer_run_bind] at h
  cases ha : answer x.run w with
  | error e =>
    rw [ha] at h
    cases h
  | ok a =>
    rw [ha] at h
    exact ⟨a, rfl, h, by rw [worldAfter_run_bind, ha]⟩

/-- An action whose errors are reported in another form. -/
theorem run_rethrow {ε' : Type} (x : StateM W (Except ε' α))
    {k : Except ε' α → ExceptT ε (StateM W) α} {f : ε' → ε} (hok : ∀ a, k (.ok a) = pure a)
    (herror : ∀ e, k (.error e) = throw (f e)) (w : W) :
    answer ((liftM x : ExceptT ε (StateM W) _) >>= k).run w = (answer x w).mapError f ∧
      worldAfter ((liftM x : ExceptT ε (StateM W) _) >>= k).run w = worldAfter x w := by
  rw [answer_run_bind, worldAfter_run_bind, answer_run_lift, worldAfter_run_lift]
  dsimp only
  cases answer x w with
  | ok a =>
    rw [hok]
    exact ⟨rfl, rfl⟩
  | error e =>
    rw [herror]
    exact ⟨rfl, rfl⟩

/-- Actions that cannot fail succeed one after the other. -/
theorem answer_run_foldlM_lift (f : β → α → StateM W β) (as : List α) (b : β) (w : W) :
    answer (as.foldlM (fun b a => (liftM (f b a) : ExceptT ε (StateM W) β)) b).run w =
        .ok (answer (as.foldlM f b) w) ∧
      worldAfter (as.foldlM (fun b a => (liftM (f b a) : ExceptT ε (StateM W) β)) b).run w =
        worldAfter (as.foldlM f b) w := by
  induction as generalizing b w with
  | nil => exact ⟨rfl, rfl⟩
  | cons a as ih =>
    rw [List.foldlM_cons, List.foldlM_cons, answer_run_bind, worldAfter_run_bind, answer_run_lift,
      worldAfter_run_lift, answer_bind, worldAfter_bind]
    exact ih _ _

end

end TypeLoom
