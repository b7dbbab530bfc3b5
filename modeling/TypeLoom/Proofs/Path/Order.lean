import Mathlib.Data.List.Basic
import TypeLoom.Location

/-!
# The order of paths and locations

Components are ordered by their kind and names by their text, paths by their components and
locations by file, line and column. Each of these orders is total and transitive, so a sorted list
of locations is in order and holds what it was made from.
-/

namespace TypeLoom

open Std

/-- An order of values is an order of all that has such a value. -/
theorem transCmp_of_key {α β : Type} {cmp : β → β → Ordering} [TransCmp cmp] (key : α → β) :
    TransCmp fun a b => cmp (key a) (key b) where
  eq_swap := OrientedCmp.eq_swap
  isLE_trans := TransCmp.isLE_trans

namespace Path

/-- The text of a component that is a name. -/
def Component.text : Component → String
  | .name n => n
  | _ => ""

theorem Component.compare_eq :
    Component.compare = compareLex (compareOn rank) (compareOn text) := by
  funext a b
  cases a <;> cases b <;> simp [Component.compare, compareLex, compareOn, rank, text, Ordering.then]

theorem compareComponents_eq : compareComponents = List.compareLex Component.compare := by
  funext as bs
  induction as generalizing bs with
  | nil => cases bs <;> rfl
  | cons a as ih =>
    cases bs with
    | nil => rfl
    | cons b bs => rw [compareComponents, ih, List.compareLex_cons_cons]

instance : TransCmp Component.compare := by
  rw [Component.compare_eq]
  infer_instance

instance : TransCmp Path.compare := by
  have : TransCmp compareComponents := by
    rw [compareComponents_eq]
    infer_instance
  exact transCmp_of_key components

end Path

namespace Path

instance : LawfulEqCmp Component.compare where
  eq_of_compare := by
    intro a b h
    cases a with
    | name m =>
      cases b with
      | name n =>
        have hname : Ord.compare m n = .eq := h
        exact congrArg Component.name (LawfulEqCmp.eq_of_compare hname)
      | _ => cases h
    | _ => cases b <;> first | rfl | cases h

theorem compare_eq_eq {p q : Path} (h : p.compare q = .eq) : p.components = q.components := by
  have h : compareComponents p.components q.components = .eq := h
  rw [compareComponents_eq] at h
  exact LawfulEqCmp.eq_of_compare h

end Path

instance : TransCmp Position.compare :=
  inferInstanceAs (TransCmp (compareLex (compareOn Position.line) (compareOn Position.column)))

namespace Location

instance : TransCmp Location.compare := by
  have hfile : TransCmp fun l k : Location => l.file.compare k.file := transCmp_of_key file
  have hposition : TransCmp fun l k : Location => l.position.compare k.position :=
    transCmp_of_key position
  exact inferInstanceAs (TransCmp (compareLex (fun l k : Location => l.file.compare k.file)
    fun l k => l.position.compare k.position))

/-- Locations that are not in order have one position in files of the same path. -/
theorem eq_of_isLE {l k : Location} (hlk : (l.compare k).isLE = true)
    (hkl : (k.compare l).isLE = true) :
    l.file.components = k.file.components ∧ l.position = k.position := by
  have hswap : k.compare l = (l.compare k).swap := OrientedCmp.eq_swap
  have heq : l.compare k = .eq := by
    rw [hswap] at hkl
    cases h : l.compare k <;> simp [h] at hlk hkl
    rfl
  obtain ⟨hfile, hposition⟩ := Ordering.then_eq_eq.mp heq
  obtain ⟨hline, hcolumn⟩ := Ordering.then_eq_eq.mp hposition
  refine ⟨Path.compare_eq_eq hfile, ?_⟩
  have hpositions : ∀ {p q : Position}, p.line = q.line → p.column = q.column → p = q := by
    rintro ⟨pl, pc⟩ ⟨ql, qc⟩ rfl rfl
    rfl
  exact hpositions (Nat.compare_eq_eq.mp hline) (Nat.compare_eq_eq.mp hcolumn)

theorem sorted_perm (ls : List Location) : (sorted ls).Perm ls := List.mergeSort_perm ls _

theorem sorted_pairwise (ls : List Location) :
    (sorted ls).Pairwise fun l k => (l.compare k).isLE = true := by
  apply List.pairwise_mergeSort
  · intro l k j
    exact TransCmp.isLE_trans
  · intro l k
    have hswap : k.compare l = (l.compare k).swap := OrientedCmp.eq_swap
    rw [hswap]
    cases l.compare k <;> rfl

end Location

end TypeLoom
