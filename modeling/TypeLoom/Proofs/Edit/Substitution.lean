import TypeLoom.Proofs.Edit.Replacement
import TypeLoom.Proofs.Span

/-!
# Edits made at once

`substituted cs es` is the text `cs` with all edits `es` made at once: at each offset stand the
texts of the edits that start there, in the order in which they are given, and then the character
that stands there in `cs`, unless an edit replaces it.

Edits that do not reach into each other, made one after the other from the back, come to the same
unless text is inserted where a replacement starts and is given after it: it is inserted first, and
then stands where the stretch to be replaced has been. `applyAll_eq_substituted_iff` says exactly
when this does no harm.
-/

namespace TypeLoom.ResolverModule.Edit

/-- Whether an edit replaces the character at an offset. -/
def covers (e : Edit) (k : Nat) : Bool := e.span.start ≤ k && k < e.span.stop

/-- The edits that start at an offset, in the order in which they are given. -/
def startingAt (es : List Edit) (k : Nat) : List Edit := es.filter (·.span.start = k)

/-- The character at an offset, unless an edit replaces it. -/
def keptAt (cs : List Char) (es : List Edit) (k : Nat) : List Char :=
  if es.any (·.covers k) then [] else cs[k]?.toList

/-- The texts of the edits that start at an offset. -/
def textAt (es : List Edit) (k : Nat) : List Char := (startingAt es k).flatMap (·.text)

/-- All edits made at once. -/
def substituted (cs : List Char) (es : List Edit) : List Char :=
  (List.range' 0 (cs.length + 1)).flatMap fun k => textAt es k ++ keptAt cs es k

/-- Insertions around replacements, given in another order than that of their offsets. -/
example :
    substituted ['a', 'b', 'c', 'd'] [insertAt 4 ['!'], insertAt 1 ['('], ⟨⟨1, 3⟩, ['X', 'Y', 'Z']⟩,
      insertAt 3 [')'], insertAt 4 ['?']] =
      ['a', '(', 'X', 'Y', 'Z', ')', 'd', '!', '?'] := by
  decide

/-- What comes of edits that start at one offset: each one takes as many characters as its stretch
has from the text of those given after it, followed by its stretch. -/
def settled (cs : List Char) (es : List Edit) : List Char :=
  es.foldr (fun e acc => e.text ++ (acc ++ e.span.slice cs).drop (e.span.stop - e.span.start)) []

/-- A stretch of a text after edits were made, from one offset to another. -/
def madeWithin (cs : List Char) (es : List Edit) (lo n : Nat) : List Char :=
  (List.range' lo n).flatMap fun k => settled cs (startingAt es k) ++ keptAt cs es k

theorem madeWithin_add (cs : List Char) (es : List Edit) (lo m n : Nat) :
    madeWithin cs es lo (m + n) = madeWithin cs es lo m ++ madeWithin cs es (lo + m) n := by
  rw [madeWithin, madeWithin, madeWithin, ← List.flatMap_append, List.range'_append_1]

theorem madeWithin_succ (cs : List Char) (es : List Edit) (lo n : Nat) :
    madeWithin cs es lo (n + 1) =
      settled cs (startingAt es lo) ++ keptAt cs es lo ++ madeWithin cs es (lo + 1) n := by
  rw [madeWithin, List.range'_succ, List.flatMap_cons, madeWithin]

theorem startingAt_cons_self (e : Edit) (es : List Edit) :
    startingAt (e :: es) e.span.start = e :: startingAt es e.span.start :=
  List.filter_cons_of_pos (by simp)

theorem startingAt_cons_ne {e : Edit} {k : Nat} (h : e.span.start ≠ k) (es : List Edit) :
    startingAt (e :: es) k = startingAt es k :=
  List.filter_cons_of_neg (by simpa using h)

theorem startingAt_eq_nil {es : List Edit} {k : Nat} (h : ∀ e ∈ es, e.span.start ≠ k) :
    startingAt es k = [] := by
  rw [startingAt, List.filter_eq_nil_iff]
  intro e he
  simpa using h e he

theorem any_covers_eq_false {es : List Edit} {k : Nat}
    (h : ∀ e ∈ es, k < e.span.start ∨ e.span.stop ≤ k) : es.any (·.covers k) = false := by
  rw [List.any_eq_false]
  intro e he
  have hcase := h e he
  simp only [covers, Bool.and_eq_true, decide_eq_true_eq]
  omega

/-- Where no edit starts or reaches, the text stays as it is. -/
theorem madeWithin_untouched {cs : List Char} {es : List Edit} {lo n : Nat}
    (h : ∀ e ∈ es, lo + n ≤ e.span.start ∨ e.span.start < lo ∧ e.span.stop ≤ lo)
    (hn : lo + n ≤ cs.length) : madeWithin cs es lo n = (cs.drop lo).take n := by
  induction n generalizing lo with
  | zero => simp [madeWithin]
  | succ n ih =>
    have hstart : startingAt es lo = [] := startingAt_eq_nil fun e he => by
      have hcase := h e he
      omega
    have hcover : es.any (·.covers lo) = false := any_covers_eq_false fun e he => by
      have hcase := h e he
      omega
    have hrest : madeWithin cs es (lo + 1) n = (cs.drop (lo + 1)).take n := by
      refine ih (fun e he => ?_) (by omega)
      have hcase := h e he
      omega
    have hlt : lo < cs.length := by omega
    rw [madeWithin_succ, hstart, keptAt, hcover, if_neg Bool.false_ne_true, hrest,
      List.getElem?_eq_getElem hlt, List.drop_eq_getElem_cons hlt, List.take_succ_cons]
    rfl

/-- Where an edit reaches and none starts, nothing stays. -/
theorem madeWithin_covered {cs : List Char} {es : List Edit} {lo n : Nat} {e : Edit} (he : e ∈ es)
    (hcover : e.span.start ≤ lo ∧ lo + n ≤ e.span.stop)
    (h : ∀ f ∈ es, f.span.start < lo ∨ lo + n ≤ f.span.start) : madeWithin cs es lo n = [] := by
  refine List.flatMap_eq_nil_iff.mpr fun k hk => ?_
  obtain ⟨hlo, hhi⟩ := List.mem_range'_1.mp hk
  have hstart : startingAt es k = [] := startingAt_eq_nil fun f hf => by
    have hcase := h f hf
    omega
  have hany : es.any (·.covers k) = true := by
    refine List.any_eq_true.mpr ⟨e, he, ?_⟩
    simp only [covers, Bool.and_eq_true, decide_eq_true_eq]
    omega
  rw [hstart, keptAt, if_pos hany]
  rfl

/-- An edit changes nothing behind its stretch. -/
theorem madeWithin_cons_behind {cs : List Char} {es : List Edit} {lo : Nat} {e : Edit} (n : Nat)
    (h : e.span.start < lo ∧ e.span.stop ≤ lo) :
    madeWithin cs (e :: es) lo n = madeWithin cs es lo n := by
  refine List.flatMap_congr fun k hk => ?_
  have hlo := (List.mem_range'_1.mp hk).1
  have hstart : startingAt (e :: es) k = startingAt es k := startingAt_cons_ne (by omega) es
  have hcover : e.covers k = false := by
    simp only [covers, Bool.and_eq_false_iff, decide_eq_false_iff_not]
    omega
  rw [hstart, keptAt, List.any_cons, hcover, Bool.false_or, keptAt]

theorem settled_cons (cs : List Char) (e : Edit) (es : List Edit) :
    settled cs (e :: es) =
      e.text ++ (settled cs es ++ e.span.slice cs).drop (e.span.stop - e.span.start) := rfl

/-- Edits of one text that do not reach into each other. -/
structure Separate (cs : List Char) (es : List Edit) : Prop where
  within : ∀ e ∈ es, e.span.start ≤ e.span.stop ∧ e.span.stop ≤ cs.length
  apart : es.Pairwise fun a b => a.span.Disjoint b.span

theorem length_slice {cs : List Char} {s : Span} (h : s.stop ≤ cs.length) :
    (s.slice cs).length = s.stop - s.start := by
  rw [Span.slice, List.length_take, List.length_drop]
  omega

theorem Separate.of_cons {cs : List Char} {e : Edit} {es : List Edit} (h : Separate cs (e :: es)) :
    Separate cs es :=
  ⟨fun f hf => h.within f (List.mem_cons_of_mem e hf), h.apart.of_cons⟩

/-- The first of the edits ends before any other one starts or starts after it ends. -/
theorem Separate.head {cs : List Char} {e f : Edit} {es : List Edit} (h : Separate cs (e :: es))
    (hf : f ∈ es) : f.span.start ≤ f.span.stop ∧
      (e.span.stop ≤ f.span.start ∨ f.span.stop ≤ e.span.start) :=
  ⟨(h.within f (List.mem_cons_of_mem e hf)).1, List.rel_of_pairwise_cons h.apart hf⟩

theorem Separate.perm {cs : List Char} {es fs : List Edit} (h : Separate cs es) (hp : es.Perm fs) :
    Separate cs fs :=
  ⟨fun e he => h.within e (hp.mem_iff.mpr he), h.apart.perm hp fun {_ _} hab => hab.symm⟩

/-- An insertion comes before all that was made from its offset on. -/
theorem madeWithin_insertion {cs : List Char} {es : List Edit} {e : Edit}
    (h : e.span.start = e.span.stop) (n : Nat) :
    madeWithin cs (e :: es) e.span.start (n + 1) =
      e.text ++ madeWithin cs es e.span.start (n + 1) := by
  have hcover : e.covers e.span.start = false := by
    simp only [covers, Bool.and_eq_false_iff, decide_eq_false_iff_not]
    omega
  rw [madeWithin_succ, startingAt_cons_self, madeWithin_cons_behind n (by omega), keptAt,
    List.any_cons, hcover, Bool.false_or, ← keptAt, madeWithin_succ, settled_cons, Span.slice, h,
    Nat.sub_self, List.take_zero, List.append_nil, List.drop_zero]
  simp only [List.append_assoc]

section

variable {cs : List Char} {es : List Edit} {e : Edit} (h : Separate cs (e :: es))
  (hne : e.span.start < e.span.stop)
include h hne

/-- Before a replacement is made, its stretch stands behind what is inserted where it starts. -/
theorem madeWithin_before_replacement (hfirst : ∀ f ∈ es, e.span.start ≤ f.span.start) (n : Nat) :
    madeWithin cs es e.span.start (e.span.stop - e.span.start + n) =
      settled cs (startingAt es e.span.start) ++ e.span.slice cs ++
        madeWithin cs es e.span.stop n := by
  have hwithin := h.within e List.mem_cons_self
  have hcase : ∀ f ∈ es, e.span.stop ≤ f.span.start ∨
      f.span.start = e.span.start ∧ f.span.stop = e.span.start := fun f hf => by
    have hapart := h.head hf
    have hstart := hfirst f hf
    omega
  obtain ⟨m, hm⟩ : ∃ m, e.span.stop - e.span.start = m + 1 :=
    ⟨e.span.stop - e.span.start - 1, by omega⟩
  have hnone : es.any (·.covers e.span.start) = false := any_covers_eq_false fun f hf => by
    have hf' := hcase f hf
    omega
  have hrest : madeWithin cs es (e.span.start + 1) m = (cs.drop (e.span.start + 1)).take m := by
    refine madeWithin_untouched (fun f hf => ?_) (by omega)
    have hf' := hcase f hf
    omega
  have hlt : e.span.start < cs.length := by omega
  have hstop : e.span.start + (m + 1) = e.span.stop := by omega
  rw [hm, madeWithin_add, hstop, madeWithin_succ, keptAt, hnone, if_neg Bool.false_ne_true, hrest,
    Span.slice, hm, List.drop_eq_getElem_cons hlt, List.take_succ_cons, List.getElem?_eq_getElem hlt]
  simp only [Option.toList_some, List.append_assoc, List.singleton_append]

theorem madeWithin_replacement (n : Nat) :
    madeWithin cs (e :: es) e.span.start (e.span.stop - e.span.start + n) =
      settled cs (e :: startingAt es e.span.start) ++ madeWithin cs es e.span.stop n := by
  obtain ⟨m, hm⟩ : ∃ m, e.span.stop - e.span.start = m + 1 :=
    ⟨e.span.stop - e.span.start - 1, by omega⟩
  have hcover : e.covers e.span.start = true := by
    simp only [covers, Bool.and_eq_true, decide_eq_true_eq]
    omega
  have hrest : madeWithin cs (e :: es) (e.span.start + 1) m = [] := by
    refine madeWithin_covered List.mem_cons_self (by omega) ?_
    refine List.forall_mem_cons.mpr ⟨Or.inl (Nat.lt_succ_self _), fun f hf => ?_⟩
    have hapart := h.head hf
    omega
  have hstop : e.span.start + (m + 1) = e.span.stop := by omega
  rw [hm, madeWithin_add, hstop, madeWithin_succ, startingAt_cons_self, keptAt, List.any_cons,
    hcover, Bool.true_or, if_pos rfl, hrest, madeWithin_cons_behind n (by omega), List.append_nil,
    List.append_nil]

end

/-- An edit that is made after those that start no earlier changes what they made from its start
on. -/
theorem madeWithin_cons {cs : List Char} {es : List Edit} {e : Edit} (h : Separate cs (e :: es))
    (hfirst : ∀ f ∈ es, e.span.start ≤ f.span.start) {n : Nat}
    (hn : e.span.stop < e.span.start + n) :
    madeWithin cs (e :: es) e.span.start n =
      e.text ++ (madeWithin cs es e.span.start n).drop (e.span.stop - e.span.start) := by
  have hwithin := h.within e List.mem_cons_self
  rcases Nat.eq_or_lt_of_le hwithin.1 with heq | hlt
  · obtain ⟨n, rfl⟩ : ∃ m, n = m + 1 := ⟨n - 1, by omega⟩
    rw [madeWithin_insertion heq, heq, Nat.sub_self, List.drop_zero]
  · obtain ⟨m, rfl⟩ : ∃ m, n = e.span.stop - e.span.start + m :=
      ⟨n - (e.span.stop - e.span.start), by omega⟩
    have hle : e.span.stop - e.span.start ≤
        (settled cs (startingAt es e.span.start) ++ e.span.slice cs).length := by
      rw [List.length_append, length_slice hwithin.2]
      omega
    rw [madeWithin_before_replacement h hlt hfirst, madeWithin_replacement h hlt, settled_cons,
      List.drop_append_of_le_length hle, List.append_assoc]

theorem apply_madeWithin {cs : List Char} {es : List Edit} {e : Edit} (h : Separate cs (e :: es))
    (hfirst : ∀ f ∈ es, e.span.start ≤ f.span.start) :
    apply (madeWithin cs es 0 (cs.length + 1)) e =
      madeWithin cs (e :: es) 0 (cs.length + 1) := by
  obtain ⟨hspan, hstop⟩ := h.within e List.mem_cons_self
  have hbefore : ∀ fs : List Edit, (∀ f ∈ fs, e.span.start ≤ f.span.start) →
      madeWithin cs fs 0 e.span.start = cs.take e.span.start := fun fs hfs => by
    refine madeWithin_untouched (fun f hf => Or.inl ?_) (by omega)
    have hstart := hfs f hf
    omega
  have htake : (cs.take e.span.start).length = e.span.start := by
    rw [List.length_take]
    omega
  have hlen : cs.length + 1 = e.span.start + (cs.length + 1 - e.span.start) := by omega
  have hafter : ∀ xs : List Char, (cs.take e.span.start ++ xs).drop e.span.stop =
      xs.drop (e.span.stop - e.span.start) := fun xs => by
    rw [List.drop_append, htake, List.drop_of_length_le (by omega), List.nil_append]
  rw [hlen, madeWithin_add, madeWithin_add, Nat.zero_add, hbefore es hfirst,
    hbefore (e :: es) (List.forall_mem_cons.mpr ⟨Nat.le_refl _, hfirst⟩),
    madeWithin_cons h hfirst (by omega), apply, hafter, List.take_left' htake, List.append_assoc]

/-- Edits in the order of their starts, made one after the other from the back. -/
theorem foldr_apply_eq_madeWithin {cs : List Char} {es : List Edit} (h : Separate cs es)
    (hsorted : es.Pairwise fun a b => a.span.start ≤ b.span.start) :
    es.foldr (fun e acc => apply acc e) cs = madeWithin cs es 0 (cs.length + 1) := by
  induction es with
  | nil =>
    have hwhole : madeWithin cs [] 0 cs.length = cs := by
      rw [madeWithin_untouched (by simp) (by omega), List.drop_zero, List.take_length]
    rw [madeWithin_add, hwhole]
    simp [madeWithin, settled, startingAt, keptAt]
  | cons e es ih =>
    rw [List.foldr_cons, ih h.of_cons hsorted.of_cons,
      apply_madeWithin h fun f hf => List.rel_of_pairwise_cons hsorted hf]

theorem applyAll_eq_madeWithin {cs : List Char} {es : List Edit} (h : Separate cs es) :
    applyAll cs es = madeWithin cs es 0 (cs.length + 1) := by
  have hperm : (backToFront es).reverse.Perm es :=
    (List.reverse_perm _).trans ((List.mergeSort_perm _ _).trans (List.reverse_perm es))
  have hsorted : (backToFront es).reverse.Pairwise fun a b => a.span.start ≤ b.span.start :=
    List.pairwise_reverse.mpr (backToFront_pairwise es)
  have hsame : madeWithin cs (backToFront es).reverse 0 (cs.length + 1) =
      madeWithin cs es 0 (cs.length + 1) := by
    refine List.flatMap_congr fun k _ => ?_
    rw [startingAt, List.filter_reverse, backToFront_filter, List.reverse_reverse, ← startingAt,
      keptAt, hperm.any_eq, keptAt]
  rw [applyAll, List.foldl_eq_foldr_reverse,
    foldr_apply_eq_madeWithin (h.perm hperm.symm) hsorted, hsame]

/-! ### What is lost -/

theorem settled_length {cs : List Char} {es : List Edit}
    (h : ∀ e ∈ es, e.span.stop ≤ cs.length) :
    (settled cs es).length = (es.flatMap (·.text)).length := by
  induction es with
  | nil => rfl
  | cons e es ih =>
    obtain ⟨he, hrest⟩ := List.forall_mem_cons.mp h
    rw [settled_cons, List.flatMap_cons, List.length_append, List.length_append, List.length_drop,
      List.length_append, length_slice he, Nat.add_sub_cancel, ih hrest]

/-- Insertions take nothing from each other. -/
theorem settled_insertions {cs : List Char} {es : List Edit}
    (h : ∀ e ∈ es, e.span.start = e.span.stop) : settled cs es = es.flatMap (·.text) := by
  induction es with
  | nil => rfl
  | cons e es ih =>
    obtain ⟨he, hrest⟩ := List.forall_mem_cons.mp h
    rw [settled_cons, List.flatMap_cons, Span.slice, he, Nat.sub_self, List.take_zero,
      List.append_nil, List.drop_zero, ih hrest]

/-- An edit leaves alone what those given after it insert at its start: their text, followed by the
stretch of the edit, loses as many characters as the stretch has and is the same text again. -/
def Spares (cs : List Char) (e : Edit) (later : List Edit) : Prop :=
  (textAt later e.span.start ++ e.span.slice cs).drop (e.span.stop - e.span.start) =
    textAt later e.span.start

/-- Every edit spares those that are given after it. -/
def SparesAll (cs : List Char) : List Edit → Prop
  | [] => True
  | e :: es => e.Spares cs es ∧ SparesAll cs es

/-- Where text is inserted at the start of a replacement, the replacement is given after it. -/
def InsertionsFirst (es : List Edit) : Prop :=
  es.Pairwise fun a b => a.span.start = b.span.start → a.span.start = a.span.stop

theorem spares_insertion {cs : List Char} {e : Edit} (h : e.span.start = e.span.stop)
    (later : List Edit) : e.Spares cs later := by
  rw [Spares, Span.slice, h, Nat.sub_self, List.take_zero, List.append_nil, List.drop_zero]

theorem spares_of_startingAt_eq_nil {cs : List Char} {e : Edit} {later : List Edit}
    (hstop : e.span.stop ≤ cs.length) (h : startingAt later e.span.start = []) :
    e.Spares cs later := by
  rw [Spares, textAt, h, List.flatMap_nil, List.nil_append]
  exact List.drop_of_length_le (Nat.le_of_eq (length_slice hstop))

theorem InsertionsFirst.sparesAll {cs : List Char} {es : List Edit} (hes : InsertionsFirst es)
    (h : Separate cs es) : SparesAll cs es := by
  induction es with
  | nil => trivial
  | cons e es ih =>
    refine ⟨?_, ih (List.Pairwise.of_cons hes) h.of_cons⟩
    by_cases hinsertion : e.span.start = e.span.stop
    · exact spares_insertion hinsertion es
    · refine spares_of_startingAt_eq_nil (h.within e List.mem_cons_self).2 ?_
      exact startingAt_eq_nil fun f hf hstart =>
        hinsertion (List.rel_of_pairwise_cons hes hf hstart.symm)

/-- What an edit and those given after it at its start come to is their texts if it spares them and
they spare each other. -/
theorem settled_cons_eq_iff {cs : List Char} {e : Edit} {es : List Edit}
    (h : Separate cs (e :: es)) :
    settled cs (e :: startingAt es e.span.start) = e.text ++ textAt es e.span.start ↔
      e.Spares cs es ∧ settled cs (startingAt es e.span.start) = textAt es e.span.start := by
  rw [settled_cons, List.append_cancel_left_eq]
  rcases Nat.eq_or_lt_of_le (h.within e List.mem_cons_self).1 with heq | hlt
  · rw [Span.slice, heq, Nat.sub_self, List.take_zero, List.append_nil, List.drop_zero, ← heq]
    exact ⟨fun hg => ⟨spares_insertion heq es, hg⟩, And.right⟩
  · have hinsertions : ∀ f ∈ startingAt es e.span.start, f.span.start = f.span.stop := by
      intro f hf
      obtain ⟨hf, hstart⟩ := List.mem_filter.mp hf
      have hstart' : f.span.start = e.span.start := by simpa using hstart
      have hapart := h.head hf
      omega
    have hrest : settled cs (startingAt es e.span.start) = textAt es e.span.start :=
      settled_insertions hinsertions
    rw [hrest]
    exact ⟨fun hg => ⟨hg, rfl⟩, And.left⟩

theorem settled_eq_iff {cs : List Char} {es : List Edit} (h : Separate cs es) :
    (∀ k, settled cs (startingAt es k) = textAt es k) ↔ SparesAll cs es := by
  induction es with
  | nil => exact ⟨fun _ => trivial, fun _ _ => rfl⟩
  | cons e es ih =>
    have hself : textAt (e :: es) e.span.start = e.text ++ textAt es e.span.start := by
      rw [textAt, startingAt_cons_self, List.flatMap_cons, textAt]
    have hother : ∀ k, e.span.start ≠ k → (settled cs (startingAt (e :: es) k) =
        textAt (e :: es) k ↔ settled cs (startingAt es k) = textAt es k) := fun k hk => by
      rw [textAt, startingAt_cons_ne hk, textAt]
    have hhere := settled_cons_eq_iff h
    rw [← hself, ← startingAt_cons_self] at hhere
    rw [SparesAll, ← ih h.of_cons]
    constructor
    · intro hall
      refine ⟨(hhere.mp (hall _)).1, fun k => ?_⟩
      by_cases hk : e.span.start = k
      · exact hk ▸ (hhere.mp (hall _)).2
      · exact (hother k hk).mp (hall k)
    · rintro ⟨hspares, hall⟩ k
      by_cases hk : e.span.start = k
      · exact hk ▸ hhere.mpr ⟨hspares, hall _⟩
      · exact (hother k hk).mpr (hall k)

theorem flatMap_eq_iff_of_length {α β : Type} {l : List α} {f g : α → List β}
    (h : ∀ a ∈ l, (f a).length = (g a).length) :
    l.flatMap f = l.flatMap g ↔ ∀ a ∈ l, f a = g a := by
  induction l with
  | nil => simp
  | cons a l ih =>
    obtain ⟨ha, hl⟩ := List.forall_mem_cons.mp h
    rw [List.flatMap_cons, List.flatMap_cons, List.forall_mem_cons, ← ih hl]
    exact ⟨fun heq => List.append_inj heq ha, fun ⟨hhead, htail⟩ => hhead ▸ htail ▸ rfl⟩

theorem madeWithin_eq_substituted_iff {cs : List Char} {es : List Edit} (h : Separate cs es) :
    madeWithin cs es 0 (cs.length + 1) = substituted cs es ↔
      ∀ k, settled cs (startingAt es k) = textAt es k := by
  have hlength : ∀ k, (settled cs (startingAt es k)).length = (textAt es k).length := fun k =>
    settled_length fun e he => (h.within e (List.mem_filter.mp he).1).2
  rw [madeWithin, substituted, flatMap_eq_iff_of_length fun k _ => by
    rw [List.length_append, List.length_append, hlength]]
  simp only [List.append_cancel_right_eq]
  refine ⟨fun hall k => ?_, fun hall k _ => hall k⟩
  by_cases hk : k < cs.length + 1
  · exact hall k (List.mem_range'_1.mpr ⟨Nat.zero_le k, by omega⟩)
  · have hnone : startingAt es k = [] := startingAt_eq_nil fun e he => by
      have hwithin := h.within e he
      omega
    rw [textAt, hnone]
    rfl

theorem applyAll_eq_iff_sparesAll {cs : List Char} {es : List Edit} (h : Separate cs es) :
    applyAll cs es = substituted cs es ↔ SparesAll cs es := by
  rw [applyAll_eq_madeWithin h, madeWithin_eq_substituted_iff h, settled_eq_iff h]

/-- Edits of which insertions are given first are made as if all at once. -/
theorem applyAll_eq_substituted {cs : List Char} {es : List Edit} (h : Separate cs es)
    (hes : InsertionsFirst es) : applyAll cs es = substituted cs es :=
  (applyAll_eq_iff_sparesAll h).mpr (hes.sparesAll h)

/-- Edits that do not reach into each other are made as if all at once exactly if none takes from
what is inserted after it at its start, and so they are whenever insertions are given first. -/
theorem applyAll_eq_substituted_iff {cs : List Char} {es : List Edit} (h : Separate cs es) :
    (applyAll cs es = substituted cs es ↔ SparesAll cs es) ∧
      (InsertionsFirst es → applyAll cs es = substituted cs es) :=
  ⟨applyAll_eq_iff_sparesAll h, applyAll_eq_substituted h⟩

/-- Text that is inserted at the start of a replacement and given after it is lost, and what was to
be replaced stays. -/
theorem applyAll_of_late_insertion :
    let es : List Edit := [⟨⟨0, 1⟩, ['X']⟩, insertAt 0 ['Y']]
    Separate ['a', 'b', 'c'] es ∧ ¬SparesAll ['a', 'b', 'c'] es ∧
      applyAll ['a', 'b', 'c'] es = ['X', 'a', 'b', 'c'] ∧
      substituted ['a', 'b', 'c'] es = ['X', 'Y', 'b', 'c'] ∧
      ((applyAll ['a', 'b', 'c'] es = substituted ['a', 'b', 'c'] es ↔
          SparesAll ['a', 'b', 'c'] es) ∧
        (InsertionsFirst es → applyAll ['a', 'b', 'c'] es = substituted ['a', 'b', 'c'] es)) := by
  have h : Separate ['a', 'b', 'c'] [⟨⟨0, 1⟩, ['X']⟩, insertAt 0 ['Y']] :=
    ⟨by decide, by simp [Span.Disjoint, insertAt]⟩
  refine ⟨h, ?_, (applyAll_eq_madeWithin h).trans (by decide), by decide,
    applyAll_eq_substituted_iff h⟩
  simp [SparesAll, Spares, insertAt, textAt, startingAt, Span.slice]

end TypeLoom.ResolverModule.Edit
