import Mathlib.Data.List.Nodup
import Mathlib.Data.List.Perm.Basic

/-!
# Stable order

A list that is sorted by a key is determined by what it holds under each key. Merge sort keeps what
a list holds under each key as it is, so every other way to the same order gives the same list.
Where no two elements have one key, the order of a list does not show under any key.
-/

namespace TypeLoom.Sorting

variable {α κ : Type}

/-- Sorting keeps the elements of a class in their order, if that is an order by rank. -/
theorem mergeSort_filter_of_pairwise {le : α → α → Bool}
    (trans : ∀ a b c, le a b → le b c → le a c) (total : ∀ a b, le a b || le b a) (l : List α)
    (p : α → Bool) (hsorted : (l.filter p).Pairwise fun a b => le a b) :
    (l.mergeSort le).filter p = l.filter p := by
  have hsub : (l.filter p).Sublist (l.mergeSort le) :=
    List.sublist_mergeSort trans total hsorted List.filter_sublist
  have hsub' : (l.filter p).Sublist ((l.mergeSort le).filter p) := by
    have h := hsub.filter p
    simpa only [List.filter_filter, Bool.and_self] using h
  have hlen : (l.filter p).length = ((l.mergeSort le).filter p).length :=
    ((List.mergeSort_perm l le).filter p).length_eq.symm
  exact (hsub'.eq_of_length hlen).symm

/-- Sorting keeps the elements of a class in their order, if the class is of one rank. -/
theorem mergeSort_filter {le : α → α → Bool} (trans : ∀ a b c, le a b → le b c → le a c)
    (total : ∀ a b, le a b || le b a) (l : List α) (p : α → Bool)
    (hp : ∀ a b, p a → p b → le a b) : (l.mergeSort le).filter p = l.filter p := by
  refine mergeSort_filter_of_pairwise trans total l p ?_
  apply List.Pairwise.imp_of_mem _ (List.pairwise_of_forall (R := fun _ _ => True) (by simp))
  intro a b ha hb _
  exact hp a b (List.of_mem_filter ha) (List.of_mem_filter hb)

/-- Where elements that are not ordered before each other are the same, it does not matter whether
elements are dropped before or after a list is sorted. -/
theorem filter_mergeSort {le : α → α → Bool} (trans : ∀ a b c, le a b → le b c → le a c)
    (total : ∀ a b, le a b || le b a) (antisymm : ∀ a b, le a b → le b a → a = b) (l : List α)
    (p : α → Bool) : (l.mergeSort le).filter p = (l.filter p).mergeSort le :=
  List.Perm.eq_of_pairwise (fun a b _ _ => antisymm a b)
    ((List.pairwise_mergeSort trans total l).filter p) (List.pairwise_mergeSort trans total _)
    (((List.mergeSort_perm l le).filter p).trans (List.mergeSort_perm _ le).symm)

/-- Where elements that are not ordered before each other are the same, the order of a list that is
to be sorted does not matter. -/
theorem mergeSort_eq_of_perm {le : α → α → Bool} (trans : ∀ a b c, le a b → le b c → le a c)
    (total : ∀ a b, le a b || le b a) (antisymm : ∀ a b, le a b → le b a → a = b) {xs ys : List α}
    (h : xs.Perm ys) : xs.mergeSort le = ys.mergeSort le :=
  List.Perm.eq_of_pairwise (fun a b _ _ => antisymm a b) (List.pairwise_mergeSort trans total _)
    (List.pairwise_mergeSort trans total _)
    ((List.mergeSort_perm xs le).trans (h.trans (List.mergeSort_perm ys le).symm))

/-- One element has no order. -/
theorem eq_of_perm_of_length_le_one {xs ys : List α} (h : xs.Perm ys) (hle : xs.length ≤ 1) :
    xs = ys := by
  cases xs with
  | nil => exact (List.nil_perm.mp h).symm
  | cons x rest =>
    obtain rfl : rest = [] := List.length_eq_zero_iff.mp (Nat.le_zero.mp (Nat.le_of_succ_le_succ hle))
    exact List.singleton_perm.mp h

/-- Of different keys there is one element at most, so the order of a list does not show. -/
theorem filter_eq_of_perm [BEq κ] [LawfulBEq κ] {key : α → κ} {xs ys : List α} (h : xs.Perm ys)
    (hkeys : (xs.map key).Nodup) (k : κ) :
    xs.filter (fun x => key x == k) = ys.filter (fun x => key x == k) := by
  refine eq_of_perm_of_length_le_one (h.filter _) ?_
  have hcount := List.nodup_iff_count_le_one.mp hkeys k
  rwa [List.count, List.countP_map, List.countP_eq_length_filter] at hcount

/-- Lists that hold the same under each key hold the same. -/
theorem perm_of_filter_eq [DecidableEq κ] (key : α → κ) {xs ys : List α}
    (h : ∀ k, xs.filter (fun x => key x = k) = ys.filter (fun x => key x = k)) : xs.Perm ys := by
  classical
  rw [List.perm_iff_count]
  intro a
  have hcount : ∀ zs : List α, zs.count a = (zs.filter fun x => key x = key a).count a := by
    intro zs
    exact (List.count_filter (p := fun x => key x = key a) (decide_eq_true rfl)).symm
  rw [hcount xs, hcount ys, h (key a)]

variable [DecidableEq κ]

/-- Two sorted lists that hold the same under each key are equal. -/
theorem eq_of_filter_eq {r : α → α → Prop} (key : α → κ)
    (hr : ∀ a b, r a b → r b a → key a = key b) {l₁ l₂ : List α} (h₁ : l₁.Pairwise r)
    (h₂ : l₂.Pairwise r)
    (h : ∀ k, l₁.filter (fun a => key a = k) = l₂.filter (fun a => key a = k)) : l₁ = l₂ := by
  induction l₁ generalizing l₂ with
  | nil =>
    cases l₂ with
    | nil => rfl
    | cons b l₂ =>
      have hb := h (key b)
      simp at hb
  | cons a l₁ ih =>
    cases l₂ with
    | nil =>
      have ha := h (key a)
      simp at ha
    | cons b l₂ =>
      -- Each head is somewhere in the other list, so neither comes before the other.
      have hkey : key a = key b := by
        by_cases hab : key a = key b
        · exact hab
        · have hb : b ∈ (a :: l₁).filter (fun x => key x = key b) := by
            rw [h (key b)]
            simp
          have ha : a ∈ (b :: l₂).filter (fun x => key x = key a) := by
            rw [← h (key a)]
            simp
          have hb' : b ∈ l₁ := by
            rcases List.mem_cons.mp (List.mem_of_mem_filter hb) with rfl | hb'
            · exact absurd rfl hab
            · exact hb'
          have ha' : a ∈ l₂ := by
            rcases List.mem_cons.mp (List.mem_of_mem_filter ha) with rfl | ha'
            · exact absurd rfl hab
            · exact ha'
          exact hr a b (List.rel_of_pairwise_cons h₁ hb') (List.rel_of_pairwise_cons h₂ ha')
      have hhead := h (key a)
      rw [List.filter_cons_of_pos (by simp), List.filter_cons_of_pos (by simp [hkey])] at hhead
      obtain ⟨rfl, -⟩ := List.cons.inj hhead
      refine congrArg (a :: ·) (ih (List.Pairwise.of_cons h₁) (List.Pairwise.of_cons h₂) ?_)
      intro k
      have hk := h k
      rw [List.filter_cons, List.filter_cons] at hk
      split at hk
      · exact (List.cons.inj hk).2
      · exact hk

end TypeLoom.Sorting
