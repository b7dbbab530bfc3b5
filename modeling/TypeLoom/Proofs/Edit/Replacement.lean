import TypeLoom.ResolverModule.Edit
import TypeLoom.Proofs.Sorting

/-!
# Edits as one replacement

`replaced cs lo es` is the text from an offset on in which all stretches of `es` are replaced at
once. Edits of stretches that stand apart, made one after the other from the back, come to the same:
`applyAll_eq_replaced`.
-/

namespace TypeLoom.ResolverModule.Edit

/-- The text from an offset on, with every stretch replaced. -/
def replaced (cs : List Char) : Nat → List Edit → List Char
  | lo, [] => cs.drop lo
  | lo, e :: es => (cs.take e.span.start).drop lo ++ e.text ++ replaced cs e.span.stop es

/-- Stretches one after the other between two offsets. -/
def Apart : Nat → List Edit → Nat → Prop
  | lo, [], hi => lo ≤ hi
  | lo, e :: es, hi => lo ≤ e.span.start ∧ e.span.start ≤ e.span.stop ∧ Apart e.span.stop es hi

theorem Apart.le {lo hi : Nat} {es : List Edit} (h : Apart lo es hi) : lo ≤ hi := by
  induction es generalizing lo with
  | nil => exact h
  | cons e es ih =>
    have hstop := ih h.2.2
    have hlo := h.1
    have hspan := h.2.1
    omega

theorem Apart.of_mem {lo hi : Nat} {es : List Edit} (h : Apart lo es hi) {e : Edit} (he : e ∈ es) :
    lo ≤ e.span.start ∧ e.span.start ≤ e.span.stop ∧ e.span.stop ≤ hi := by
  induction es generalizing lo with
  | nil => cases he
  | cons d es ih =>
    rcases List.mem_cons.mp he with rfl | he
    · exact ⟨h.1, h.2.1, h.2.2.le⟩
    · have hrest := ih h.2.2 he
      have hlo := h.1
      have hspan := h.2.1
      omega

theorem apart_append {lo hi : Nat} {es fs : List Edit} :
    Apart lo (es ++ fs) hi ↔ ∃ mid, Apart lo es mid ∧ Apart mid fs hi := by
  induction es generalizing lo with
  | nil =>
    constructor
    · intro h
      exact ⟨lo, Nat.le_refl lo, h⟩
    · rintro ⟨mid, h, g⟩
      cases fs with
      | nil => exact Nat.le_trans h g
      | cons f fs => exact ⟨Nat.le_trans h g.1, g.2⟩
  | cons e es ih =>
    simp only [List.cons_append, Apart, ih]
    constructor
    · rintro ⟨h, g, mid, hm, hu⟩
      exact ⟨mid, ⟨h, g, hm⟩, hu⟩
    · rintro ⟨mid, ⟨h, g, hm⟩, hu⟩
      exact ⟨h, g, mid, hm, hu⟩

/-- Edits that stand apart start in order. -/
theorem Apart.pairwise {lo hi : Nat} {es : List Edit} (h : Apart lo es hi) :
    es.Pairwise fun a b => a.span.start ≤ b.span.start := by
  induction es generalizing lo with
  | nil => exact List.Pairwise.nil
  | cons e es ih =>
    refine List.Pairwise.cons ?_ (ih h.2.2)
    intro f hf
    have hspan := h.2.1
    have hrest := h.2.2.of_mem hf
    omega

/-- The text before the first stretch is left alone while the edits after it are made. -/
theorem foldr_apply {cs : List Char} {lo : Nat} {es : List Edit} (h : Apart lo es cs.length) :
    es.foldr (fun e acc => apply acc e) cs = cs.take lo ++ replaced cs lo es := by
  induction es generalizing lo with
  | nil => simp [replaced]
  | cons e es ih =>
    obtain ⟨hlo, hspan, hrest⟩ := h
    have hstop := hrest.le
    have hlen : (cs.take e.span.stop).length = e.span.stop := by
      rw [List.length_take]
      omega
    have hbefore : (cs.take e.span.stop ++ replaced cs e.span.stop es).take e.span.start =
        cs.take e.span.start := by
      rw [List.take_append_of_le_length (by omega), List.take_take, Nat.min_eq_left hspan]
    have hafter : (cs.take e.span.stop ++ replaced cs e.span.stop es).drop e.span.stop =
        replaced cs e.span.stop es := by
      rw [List.drop_append_of_le_length (by omega), List.drop_of_length_le (by omega),
        List.nil_append]
    have hsplit : cs.take e.span.start = cs.take lo ++ (cs.take e.span.start).drop lo := by
      conv_lhs => rw [← List.take_append_drop lo (cs.take e.span.start)]
      rw [List.take_take, Nat.min_eq_left hlo]
    rw [List.foldr_cons, ih hrest]
    unfold apply
    rw [hbefore, hafter, replaced]
    conv_lhs => rw [hsplit]
    simp only [List.append_assoc]

section

variable (es : List Edit)

/-- Later starts come first. -/
theorem backToFront_pairwise :
    (backToFront es).Pairwise fun a b => b.span.start ≤ a.span.start := by
  refine (List.pairwise_mergeSort ?_ ?_ es.reverse).imp fun hab => by simpa using hab
  · intro a b c hab hbc
    simp only [decide_eq_true_eq] at hab hbc ⊢
    omega
  · intro a b
    simp only [Bool.or_eq_true, decide_eq_true_eq]
    omega

/-- Of one start, the edit that was given last comes first. -/
theorem backToFront_filter (k : Nat) :
    (backToFront es).filter (fun e => e.span.start = k) =
      (es.filter fun e => e.span.start = k).reverse := by
  rw [← List.filter_reverse]
  refine Sorting.mergeSort_filter ?_ ?_ es.reverse _ ?_
  · intro a b c hab hbc
    simp only [decide_eq_true_eq] at hab hbc ⊢
    omega
  · intro a b
    simp only [Bool.or_eq_true, decide_eq_true_eq]
    omega
  · intro a b ha hb
    simp only [decide_eq_true_eq] at ha hb ⊢
    omega

end

/-- The order in which edits are made is that of their starts, from the back. -/
theorem backToFront_eq {es fs : List Edit}
    (hs : fs.Pairwise fun a b => a.span.start ≤ b.span.start)
    (hk : ∀ k, fs.filter (fun e => e.span.start = k) = es.filter (fun e => e.span.start = k)) :
    backToFront es = fs.reverse := by
  apply Sorting.eq_of_filter_eq (r := fun a b : Edit => b.span.start ≤ a.span.start)
    fun e => e.span.start
  · intro a b hab hba
    omega
  · exact backToFront_pairwise es
  · rw [List.pairwise_reverse]
    exact hs
  · intro k
    rw [backToFront_filter, List.filter_reverse, hk k]

/-- Edits that stand apart are one replacement, those with one start in the order given. -/
theorem applyAll_eq_replaced {cs : List Char} {es fs : List Edit} (h : Apart 0 fs cs.length)
    (hk : ∀ k, fs.filter (fun e => e.span.start = k) = es.filter (fun e => e.span.start = k)) :
    applyAll cs es = replaced cs 0 fs := by
  unfold applyAll
  rw [backToFront_eq h.pairwise hk, List.foldl_reverse, foldr_apply h, List.take_zero,
    List.nil_append]

end TypeLoom.ResolverModule.Edit
