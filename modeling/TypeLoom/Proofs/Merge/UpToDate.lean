import TypeLoom.Proofs.Merge.Importing
import TypeLoom.Proofs.Merge.Rebuilding

/-!
# Modules that are up to date

A module is up to date if its first import from the path binds the type, its variable is annotated
with the type, and the properties of the literal are in order and among them all that are required.
Main statements: that is what has to be known of a module to know that nothing is left to do for it,
and bringing such a module up to date once more leaves it as it is.
-/

namespace TypeLoom.ResolverModule

/-- The variable of a module is what an update requires. -/
structure Binding.Implements (b : Binding) (u : Update) : Prop where
  annotated : ∃ span type, b.annotation = some (span, type) ∧ Text.trimmed type = u.type
  sorted : (b.object.properties.map (·.name)).Pairwise (· ≤ ·)
  complete : ∀ s ∈ u.stubs, s.name ∈ b.object.properties.map (·.name)

/-- A module holds what an update requires, where merging looks for it. -/
structure Outline.Current (m : Outline) (u : Update) : Prop where
  imported : ∃ i, m.importFrom? u.importPath = some i ∧ i.Binds u.type
  implemented : ∃ b, m.binding = some b ∧ b.Implements u

variable {m : Outline} {u : Update}

/-- The annotation is left as it is exactly if it is the type that is required. -/
theorem Plan.retype_compute_eq_false_iff {b : Binding} (hb : m.binding = some b) :
    (Plan.compute m u).retype = false ↔
      ∃ span type, b.annotation = some (span, type) ∧ Text.trimmed type = u.type := by
  simp only [Plan.compute, hb]
  rcases b.annotation with _ | ⟨span, type⟩ <;> simp

/-- Nothing is left to do exactly for modules that hold what is required. -/
theorem Plan.isEmpty_compute_iff : (Plan.compute m u).isEmpty = true ↔ m.Current u := by
  have himport : Plan.lacksImport m u = false ↔
      ∃ i, m.importFrom? u.importPath = some i ∧ i.Binds u.type := by
    rw [← Bool.not_eq_true, lacksImport_iff, not_not]
  cases hb : m.binding with
  | none =>
    refine iff_of_false ?_ fun h => ?_
    · simp [Plan.compute, hb, Plan.isEmpty]
    · obtain ⟨b, hb', -⟩ := h.implemented
      rw [hb] at hb'
      cases hb'
  | some b =>
    simp only [Plan.isEmpty, Bool.and_eq_true, Bool.not_eq_true',
      Plan.retype_compute_eq_false_iff hb]
    simp only [Plan.compute, hb, himport, List.isEmpty_iff, Plan.unique_eq_nil_iff,
      Plan.isUnsorted_eq_false_iff, and_true]
    constructor
    · rintro ⟨⟨⟨himported, hcomplete⟩, hsorted⟩, hannotated⟩
      exact ⟨himported, b, hb, hannotated, hsorted, hcomplete⟩
    · rintro ⟨himported, b', hb', himplements⟩
      obtain rfl := Option.some.inj (hb.symm.trans hb')
      exact ⟨⟨⟨himported, himplements.complete⟩, himplements.sorted⟩, himplements.annotated⟩

/-- Bringing a module up to date that is so already leaves it as it is. -/
theorem merge_of_current [Parser] {text : String} (hblank : Text.allBlank text = false)
    (hread : read text.toList = .ok m) (h : m.Current u) : merge (some text) u = .ok text := by
  rw [merge_of_read hblank hread, if_pos (Plan.isEmpty_compute_iff.mpr h)]

end TypeLoom.ResolverModule
