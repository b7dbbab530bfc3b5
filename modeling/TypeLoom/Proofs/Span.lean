import TypeLoom.ResolverModule.Node
import Mathlib.Data.List.Basic

/-!
# Stretches one after the other

`Laid lo ss hi` says of a list of stretches that none is empty and that they follow one another
between two offsets. What is true of a list in this way is true of each part of it.
-/

namespace TypeLoom.ResolverModule.Span

/-- Stretches one after the other, from one offset to another. -/
def Laid : Nat → List Span → Nat → Prop
  | lo, [], hi => lo ≤ hi
  | lo, s :: ss, hi => lo ≤ s.start ∧ s.start < s.stop ∧ Laid s.stop ss hi

instance decidableLaid : (lo : Nat) → (ss : List Span) → (hi : Nat) → Decidable (Laid lo ss hi)
  | lo, [], hi => inferInstanceAs (Decidable (lo ≤ hi))
  | _, s :: ss, hi =>
    have := decidableLaid s.stop ss hi
    inferInstanceAs (Decidable (_ ∧ _ ∧ _))

theorem Laid.le {lo hi : Nat} {ss : List Span} (h : Laid lo ss hi) : lo ≤ hi := by
  induction ss generalizing lo with
  | nil => exact h
  | cons s ss ih =>
    have := ih h.2.2
    have := h.1
    have := h.2.1
    omega

theorem Laid.mono {lo lo' hi hi' : Nat} {ss : List Span} (h : Laid lo ss hi) (hl : lo' ≤ lo)
    (hh : hi ≤ hi') : Laid lo' ss hi' := by
  induction ss generalizing lo lo' with
  | nil => exact Nat.le_trans hl (Nat.le_trans h hh)
  | cons s ss ih => exact ⟨Nat.le_trans hl h.1, h.2.1, ih h.2.2 (Nat.le_refl _)⟩

theorem laid_append {lo hi : Nat} {ss us : List Span} :
    Laid lo (ss ++ us) hi ↔ ∃ mid, Laid lo ss mid ∧ Laid mid us hi := by
  induction ss generalizing lo with
  | nil =>
    constructor
    · intro h
      exact ⟨lo, Nat.le_refl lo, h⟩
    · rintro ⟨mid, h, g⟩
      exact g.mono h (Nat.le_refl hi)
  | cons s ss ih =>
    simp only [List.cons_append, Laid, ih]
    constructor
    · rintro ⟨h, g, mid, hm, hu⟩
      exact ⟨mid, ⟨h, g, hm⟩, hu⟩
    · rintro ⟨mid, ⟨h, g, hm⟩, hu⟩
      exact ⟨h, g, mid, hm, hu⟩

/-- Stretches may be left out. -/
theorem Laid.sublist {lo hi : Nat} {ss us : List Span} (h : Laid lo ss hi) (hu : us.Sublist ss) :
    Laid lo us hi := by
  induction hu generalizing lo with
  | slnil => exact h
  | cons s _ ih =>
    have hlt := Nat.le_trans h.1 (Nat.le_of_lt h.2.1)
    exact (ih h.2.2).mono hlt (Nat.le_refl hi)
  | cons_cons s _ ih => exact ⟨h.1, h.2.1, ih h.2.2⟩

theorem Laid.of_mem {lo hi : Nat} {ss : List Span} {s : Span} (h : Laid lo ss hi) (hs : s ∈ ss) :
    lo ≤ s.start ∧ s.start < s.stop ∧ s.stop ≤ hi := by
  obtain ⟨us, vs, rfl⟩ := List.append_of_mem hs
  obtain ⟨mid, hu, hv⟩ := laid_append.mp h
  have hle := hu.le
  exact ⟨Nat.le_trans hle hv.1, hv.2.1, hv.2.2.le⟩

/-- Neither of two stretches reaches into the other. -/
def Disjoint (a b : Span) : Prop := a.stop ≤ b.start ∨ b.stop ≤ a.start

theorem Laid.pairwise {lo hi : Nat} {ss : List Span} (h : Laid lo ss hi) :
    ss.Pairwise fun a b => a.stop ≤ b.start := by
  induction ss generalizing lo with
  | nil => exact List.Pairwise.nil
  | cons s ss ih =>
    refine List.Pairwise.cons ?_ (ih h.2.2)
    intro u hu
    exact (h.2.2.of_mem hu).1

end TypeLoom.ResolverModule.Span
