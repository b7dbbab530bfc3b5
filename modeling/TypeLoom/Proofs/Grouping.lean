import Mathlib.Data.List.Induction
import Mathlib.Data.List.Nodup
import TypeLoom.Grouping

/-!
# Groups made from a list

Adding the values of a list one after the other, each under its key, loses and repeats none of
them. The values of a key are those of the list that have it, in the order of the list, and the
groups stand in the order of their first values.
-/

namespace TypeLoom.Grouping

variable {κ α : Type}

/-- The first value of each group. -/
def firsts (g : Grouping κ α) : List α := g.filterMap fun e => e.2.head?

/-- What a grouping is after the values of a list were added, each under its key. -/
structure Holds [BEq κ] (g : Grouping κ α) (key : α → κ) (xs : List α) : Prop where
  keys_nodup : g.keys.Nodup
  get_eq : ∀ k, g.get k = xs.filter fun x => key x == k
  values_perm : g.values.Perm xs
  nonempty : ∀ e ∈ g, e.2 ≠ []
  firsts_sublist : g.firsts.Sublist xs

/-- Adds the values of a list one after the other, each under its key. -/
def addEach [BEq κ] (key : α → κ) (xs : List α) (g : Grouping κ α) : Grouping κ α :=
  xs.foldl (fun g x => add (key x) x g) g

section

variable [BEq κ]

theorem ofList_eq_addEach (key : α → κ) (xs : List α) : ofList key xs = addEach key xs empty := rfl

@[simp]
theorem addEach_nil (key : α → κ) (g : Grouping κ α) : addEach key [] g = g := rfl

@[simp]
theorem addEach_singleton (key : α → κ) (x : α) (g : Grouping κ α) :
    addEach key [x] g = add (key x) x g := rfl

theorem addEach_append (key : α → κ) (xs ys : List α) (g : Grouping κ α) :
    addEach key (xs ++ ys) g = addEach key ys (addEach key xs g) :=
  List.foldl_append

theorem add_cons (k : κ) (x : α) (j : κ) (ys : List α) (rest : Grouping κ α) :
    add k x ((j, ys) :: rest) =
      if j == k then (j, ys ++ [x]) :: rest else (j, ys) :: add k x rest := rfl

theorem values_add (k : κ) (x : α) (g : Grouping κ α) :
    (add k x g).values.Perm (g.values ++ [x]) := by
  induction g with
  | nil => simp [add, addAll, values]
  | cons e rest ih =>
    obtain ⟨j, ys⟩ := e
    rw [add_cons]
    split
    · simp only [values, List.flatMap_cons, List.append_assoc]
      exact List.Perm.append_left ys List.perm_append_comm
    · simp only [values, List.flatMap_cons, List.append_assoc] at ih ⊢
      exact List.Perm.append_left ys ih

theorem nonempty_add {k : κ} {x : α} {g : Grouping κ α} (hg : ∀ e ∈ g, e.2 ≠ []) :
    ∀ e ∈ add k x g, e.2 ≠ [] := by
  induction g with
  | nil => simp [add, addAll]
  | cons e rest ih =>
    obtain ⟨j, ys⟩ := e
    obtain ⟨hys, hrest⟩ := List.forall_mem_cons.mp hg
    rw [add_cons]
    split
    · exact List.forall_mem_cons.mpr ⟨by simp, hrest⟩
    · exact List.forall_mem_cons.mpr ⟨hys, ih hrest⟩

/-- Only a new group adds to the first values. -/
theorem firsts_add {k : κ} {x : α} {g : Grouping κ α} (hg : ∀ e ∈ g, e.2 ≠ []) :
    (add k x g).firsts = g.firsts ∨ (add k x g).firsts = g.firsts ++ [x] := by
  induction g with
  | nil => exact Or.inr (by simp [add, addAll, firsts])
  | cons e rest ih =>
    obtain ⟨j, ys⟩ := e
    obtain ⟨hys, hrest⟩ := List.forall_mem_cons.mp hg
    obtain ⟨y, ys, rfl⟩ := List.exists_cons_of_ne_nil hys
    rw [add_cons]
    split
    · exact Or.inl (by simp [firsts])
    · simp only [firsts] at ih ⊢
      rcases ih hrest with h | h
      · exact Or.inl (by simp [h])
      · exact Or.inr (by simp [h])

theorem holds_empty (key : α → κ) : Holds (empty : Grouping κ α) key [] where
  keys_nodup := List.nodup_nil
  get_eq := fun _ => rfl
  values_perm := List.Perm.refl []
  nonempty := by simp [empty]
  firsts_sublist := List.Sublist.refl []

theorem Holds.eq_nil_iff {g : Grouping κ α} {key : α → κ} {xs : List α} (h : g.Holds key xs) :
    g = [] ↔ xs = [] := by
  constructor
  · rintro rfl
    exact h.values_perm.symm.eq_nil
  · rintro rfl
    have hvalues := List.flatMap_eq_nil_iff.mp h.values_perm.eq_nil
    exact List.eq_nil_iff_forall_not_mem.mpr fun e he => h.nonempty e he (hvalues e he)

theorem Holds.mem_values {g : Grouping κ α} {key : α → κ} {xs : List α} (h : g.Holds key xs)
    {x : α} : x ∈ g.values ↔ x ∈ xs :=
  h.values_perm.mem_iff

end

variable [BEq κ] [LawfulBEq κ]

/-- A key that is new goes to the end. -/
theorem keys_add (k : κ) (x : α) (g : Grouping κ α) :
    (add k x g).keys = if k ∈ g.keys then g.keys else g.keys ++ [k] := by
  induction g with
  | nil => simp [add, addAll, keys]
  | cons e rest ih =>
    obtain ⟨j, ys⟩ := e
    have hcons : keys ((j, ys) :: rest) = j :: keys rest := rfl
    rw [add_cons, hcons]
    by_cases hj : j = k
    · simp [keys, hj]
    · have hmem : k ∈ j :: keys rest ↔ k ∈ keys rest := by simp [Ne.symm hj]
      have hadd : keys ((j, ys) :: add k x rest) = j :: keys (add k x rest) := rfl
      simp only [beq_iff_eq, hj, if_false, hmem, hadd, ih]
      split <;> rfl

theorem Holds.add {g : Grouping κ α} {key : α → κ} {xs : List α} (h : g.Holds key xs) (x : α) :
    (Grouping.add (key x) x g).Holds key (xs ++ [x]) where
  keys_nodup := by
    rw [keys_add]
    split
    · exact h.keys_nodup
    · rename_i hk
      rw [List.nodup_append]
      refine ⟨h.keys_nodup, by simp, ?_⟩
      intro a ha b hb hab
      rw [List.mem_singleton] at hb
      exact hk (hb ▸ hab ▸ ha)
  get_eq := by
    intro k
    rw [get_add, h.get_eq, List.filter_append]
    by_cases hk : k = key x
    · simp [hk]
    · have hk' : key x ≠ k := fun e => hk e.symm
      simp [hk, hk']
  values_perm := (values_add _ x g).trans (h.values_perm.append_right [x])
  nonempty := nonempty_add h.nonempty
  firsts_sublist := by
    rcases firsts_add (k := key x) (x := x) h.nonempty with e | e
    · exact e ▸ h.firsts_sublist.trans (List.sublist_append_left xs [x])
    · exact e ▸ h.firsts_sublist.append (List.Sublist.refl [x])

theorem Holds.addEach {g : Grouping κ α} {key : α → κ} {xs : List α} (h : g.Holds key xs)
    (ys : List α) : (g.addEach key ys).Holds key (xs ++ ys) := by
  induction ys generalizing g xs with
  | nil => simpa using h
  | cons y ys ih =>
    have hstep := ih (h.add y)
    rwa [List.append_assoc] at hstep

/-- Grouping a list loses and repeats nothing. -/
theorem holds_ofList (key : α → κ) (xs : List α) : (ofList key xs).Holds key xs :=
  (holds_empty key).addEach xs

namespace Holds

variable {g : Grouping κ α} {key : α → κ} {xs : List α}

/-- A group is what its key holds. -/
theorem get_of_mem (h : g.Holds key xs) {k : κ} {ys : List α} (he : (k, ys) ∈ g) :
    ys = xs.filter fun x => key x == k := by
  rw [← h.get_eq k]
  have hkeys := h.keys_nodup
  clear h
  induction g with
  | nil => simp at he
  | cons e rest ih =>
    obtain ⟨j, zs⟩ := e
    obtain ⟨hj, hrest⟩ := List.nodup_cons.mp hkeys
    rcases List.mem_cons.mp he with heq | he
    · obtain ⟨rfl, rfl⟩ := Prod.mk.inj heq
      simp [get]
    · have hne : ¬(k == j) = true := by
        intro hkj
        have hmem : k ∈ keys rest := List.mem_map_of_mem he
        exact hj (LawfulBEq.eq_of_beq hkj ▸ hmem)
      have hget : get ((j, zs) :: rest) k = get rest k := by
        simp [get, List.lookup_cons, hne]
      rw [hget]
      exact ih he hrest

theorem mem_keys (h : g.Holds key xs) {k : κ} : k ∈ g.keys ↔ ∃ x ∈ xs, key x = k := by
  constructor
  · intro hk
    obtain ⟨⟨j, ys⟩, he, rfl⟩ := List.mem_map.mp hk
    obtain ⟨y, hy⟩ := List.exists_mem_of_ne_nil ys (h.nonempty _ he)
    rw [h.get_of_mem he] at hy
    have hy' := List.mem_filter.mp hy
    exact ⟨y, hy'.1, LawfulBEq.eq_of_beq hy'.2⟩
  · rintro ⟨x, hx, rfl⟩
    have hv := h.mem_values.mpr hx
    obtain ⟨⟨j, ys⟩, he, hxy⟩ := List.mem_flatMap.mp hv
    have hxy' : x ∈ ys := hxy
    rw [h.get_of_mem he] at hxy'
    have hj : key x = j := LawfulBEq.eq_of_beq (List.mem_filter.mp hxy').2
    exact hj ▸ List.mem_map_of_mem he

end Holds

/-! ### Merging groups -/

section

variable {β : Type}

theorem addAll_cons (k : κ) (x : α) (xs : List α) (g : Grouping κ α) :
    addAll k (x :: xs) g = addAll k xs (add k x g) := by
  induction g with
  | nil => simp [add, addAll]
  | cons e rest ih =>
    obtain ⟨j, ys⟩ := e
    by_cases hj : j = k
    · simp [add, addAll, hj]
    · simp only [add, addAll, beq_iff_eq, hj, if_false] at ih ⊢
      rw [ih]

/-- Values of one key are added together as they are one after the other. -/
theorem addAll_eq_addEach {key : α → κ} {k : κ} {xs : List α} (hne : xs ≠ [])
    (hkey : ∀ x ∈ xs, key x = k) (g : Grouping κ α) : addAll k xs g = addEach key xs g := by
  induction xs generalizing g with
  | nil => exact absurd rfl hne
  | cons x xs ih =>
    obtain ⟨hx, hxs⟩ := List.forall_mem_cons.mp hkey
    cases xs with
    | nil => rw [addEach_singleton, hx, add]
    | cons y ys =>
      rw [addAll_cons, ih (by simp) hxs, ← hx]
      rfl

/-- Adding whole groups adds their values. -/
theorem foldl_addAll {key : α → κ} {es : List (κ × List α)}
    (hes : ∀ e ∈ es, e.2 ≠ [] ∧ ∀ x ∈ e.2, key x = e.1) (g : Grouping κ α) :
    es.foldl (fun g e => addAll e.1 e.2 g) g = addEach key (es.flatMap (·.2)) g := by
  induction es generalizing g with
  | nil => rfl
  | cons e es ih =>
    obtain ⟨he, hrest⟩ := List.forall_mem_cons.mp hes
    rw [List.foldl_cons, ih hrest, addAll_eq_addEach he.1 he.2, List.flatMap_cons, addEach_append]

theorem Holds.key_of_mem {g : Grouping κ α} {key : α → κ} {xs : List α} (h : g.Holds key xs)
    {e : κ × List α} (he : e ∈ g) {x : α} (hx : x ∈ e.2) : key x = e.1 := by
  rw [h.get_of_mem (k := e.1) he] at hx
  exact LawfulBEq.eq_of_beq (List.mem_filter.mp hx).2

/-- The groups, with every value replaced. -/
def mapValues (f : α → β) (g : Grouping κ α) : Grouping κ β := g.map fun e => (e.1, e.2.map f)

omit [LawfulBEq κ] in
theorem addAll_mapValues (f : α → β) (k : κ) (xs : List α) (g : Grouping κ α) :
    addAll k (xs.map f) (mapValues f g) = mapValues f (addAll k xs g) := by
  induction g with
  | nil => rfl
  | cons e rest ih =>
    obtain ⟨j, ys⟩ := e
    simp only [mapValues, List.map_cons, addAll] at ih ⊢
    split
    · simp
    · simp [ih]

omit [LawfulBEq κ] in
theorem foldl_addAll_mapValues (f : α → β) (es : List (κ × List α)) (g : Grouping κ α) :
    (mapValues f es).foldl (fun g e => addAll e.1 e.2 g) (mapValues f g) =
      mapValues f (es.foldl (fun g e => addAll e.1 e.2 g) g) := by
  induction es generalizing g with
  | nil => rfl
  | cons e es ih =>
    have hstep := ih (addAll e.1 e.2 g)
    rw [← addAll_mapValues] at hstep
    exact hstep

omit [LawfulBEq κ] in
theorem ofList_map (f : α → β) (key : β → κ) (xs : List α) :
    ofList key (xs.map f) = mapValues f (ofList (fun x => key (f x)) xs) := by
  induction xs using List.reverseRecOn with
  | nil => rfl
  | append_singleton xs x ih =>
    have hadd : ∀ {γ : Type} (key : γ → κ) (ys : List γ) (y : γ),
        ofList key (ys ++ [y]) = addAll (key y) [y] (ofList key ys) := by
      intro γ key ys y
      simp [ofList, add]
    rw [List.map_append, List.map_singleton, hadd, hadd, ih, ← addAll_mapValues]
    rfl

/-- Values that all have different keys stay in their order. -/
theorem Holds.values_eq {g : Grouping κ α} {key : α → κ} {xs : List α} (h : g.Holds key xs)
    (hkeys : (xs.map key).Nodup) : g.values = xs := by
  have hone : ∀ e ∈ g, e.2 = e.2.head?.toList := by
    intro e he
    have hle : e.2.length ≤ 1 := by
      have hcount := List.nodup_iff_count_le_one.mp hkeys e.1
      rw [List.count, List.countP_map, List.countP_eq_length_filter] at hcount
      rw [h.get_of_mem (k := e.1) he]
      exact hcount
    match hgroup : e.2 with
    | [] => rfl
    | [x] => rfl
    | x :: y :: rest => simp [hgroup] at hle
  have hvalues : g.values = g.firsts := by
    rw [values, firsts, List.filterMap_eq_flatMap_toList]
    exact List.flatMap_congr hone
  rw [hvalues]
  exact h.firsts_sublist.eq_of_length (hvalues ▸ h.values_perm.length_eq)

theorem mem_keys_of_mem {g : Grouping κ α} {e : κ × List α} (he : e ∈ g) {k : κ}
    (hk : (e.1 == k) = true) : k ∈ g.keys := by
  obtain rfl := LawfulBEq.eq_of_beq hk
  exact List.mem_map_of_mem he

theorem filter_of_mem {g : Grouping κ α} (hkeys : g.keys.Nodup) {k : κ} {ys : List α}
    (he : (k, ys) ∈ g) : g.filter (·.1 == k) = [(k, ys)] := by
  induction g with
  | nil => simp at he
  | cons e rest ih =>
    obtain ⟨hnew, hrest⟩ := List.nodup_cons.mp hkeys
    rcases List.mem_cons.mp he with rfl | he
    · have hothers : rest.filter (·.1 == k) = [] := by
        rw [List.filter_eq_nil_iff]
        intro e he hek
        exact hnew (mem_keys_of_mem he hek)
      simp [hothers]
    · have hskip : ¬(e.1 == k) = true := by
        intro hek
        obtain rfl := LawfulBEq.eq_of_beq hek
        exact hnew (mem_keys_of_mem he BEq.rfl)
      simp [hskip, ih hrest he]

/-- A key has one group, unless no value has it. -/
theorem Holds.filter_key {g : Grouping κ α} {key : α → κ} {xs : List α} (h : g.Holds key xs)
    (k : κ) :
    g.filter (·.1 == k) =
      if (xs.filter fun x => key x == k).isEmpty then []
      else [(k, xs.filter fun x => key x == k)] := by
  by_cases hk : k ∈ g.keys
  · obtain ⟨⟨j, ys⟩, he, hj⟩ := List.mem_map.mp hk
    obtain rfl : j = k := hj
    have hne : ys ≠ [] := h.nonempty _ he
    rw [filter_of_mem h.keys_nodup he, ← h.get_of_mem he, if_neg (by simpa using hne)]
  · have hnone : g.filter (·.1 == k) = [] := by
      rw [List.filter_eq_nil_iff]
      intro e he hek
      exact hk (mem_keys_of_mem he hek)
    have hempty : (xs.filter fun x => key x == k) = [] := by
      rw [List.filter_eq_nil_iff]
      intro x hx hxk
      exact hk (h.mem_keys.mpr ⟨x, hx, LawfulBEq.eq_of_beq hxk⟩)
    rw [hnone, hempty]
    rfl

end

section

variable {μ : Type} [BEq μ] [LawfulBEq μ]

theorem add_rename {f : κ → μ} {k : κ} {x : α} {g : Grouping κ α}
    (hf : ∀ j ∈ g.keys, f j = f k → j = k) :
    add (f k) x (g.map fun e => (f e.1, e.2)) = (add k x g).map fun e => (f e.1, e.2) := by
  induction g with
  | nil => rfl
  | cons e rest ih =>
    obtain ⟨j, ys⟩ := e
    obtain ⟨hj, hrest⟩ := List.forall_mem_cons.mp hf
    rw [List.map_cons, add_cons, add_cons, ih hrest]
    by_cases hjk : j = k
    · simp [hjk]
    · have hne : f j ≠ f k := fun h => hjk (hj h)
      simp [hjk, hne]

/-- Groups under other keys are the same groups, as long as different keys stay different. -/
theorem ofList_rename {key : α → κ} {f : κ → μ} {xs : List α}
    (hf : ∀ x ∈ xs, ∀ y ∈ xs, f (key x) = f (key y) → key x = key y) :
    ofList (fun x => f (key x)) xs = (ofList key xs).map fun e => (f e.1, e.2) := by
  induction xs using List.reverseRecOn with
  | nil => rfl
  | append_singleton xs x ih =>
    have hprior : ∀ y ∈ xs, y ∈ xs ++ [x] := fun y hy => List.mem_append_left [x] hy
    have hkeys : ∀ j ∈ (ofList key xs).keys, f j = f (key x) → j = key x := by
      intro j hj
      obtain ⟨y, hy, rfl⟩ := (holds_ofList key xs).mem_keys.mp hj
      exact hf y (hprior y hy) x (by simp)
    have hrest := ih fun y hy z hz => hf y (hprior y hy) z (hprior z hz)
    simp only [ofList_eq_addEach, addEach_append, addEach_singleton] at hrest hkeys ⊢
    rw [hrest, add_rename hkeys]

end

section

variable {key : α → κ} {g : Grouping κ α} {ys : List α}

/-- A key that the first groups do not have is put behind them. -/
theorem add_append {k : κ} (hk : k ∉ g.keys) (x : α) (h : Grouping κ α) :
    add k x (g ++ h) = g ++ add k x h := by
  induction g with
  | nil => rfl
  | cons e rest ih =>
    obtain ⟨j, xs⟩ := e
    have hne : j ≠ k := fun heq => hk (heq ▸ List.mem_cons_self)
    rw [List.cons_append, add_cons, if_neg (by simpa using hne),
      ih fun hmem => hk (List.mem_cons_of_mem j hmem), List.cons_append]

/-- Values of new keys make groups of their own. -/
theorem addEach_new (hys : ∀ y ∈ ys, key y ∉ g.keys) : addEach key ys g = g ++ ofList key ys := by
  have hbehind : ∀ h : Grouping κ α, addEach key ys (g ++ h) = g ++ addEach key ys h := by
    induction ys with
    | nil => exact fun _ => rfl
    | cons y ys ih =>
      obtain ⟨hy, hrest⟩ := List.forall_mem_cons.mp hys
      intro h
      exact (congrArg (addEach key ys) (add_append hy y h)).trans (ih hrest _)
  have hnone := hbehind empty
  rwa [empty, List.append_nil] at hnone

/-- Values of other keys do not show under a key. -/
theorem get_append_ofList {k : κ} (hk : ∀ y ∈ ys, key y ≠ k) :
    get (g ++ ofList key ys) k = g.get k := by
  have hnone : (ofList key ys).lookup k = none := by
    refine List.lookup_eq_none_iff.mpr fun e he => ?_
    obtain ⟨y, hy, hkey⟩ := (holds_ofList key ys).mem_keys.mp (List.mem_map_of_mem he)
    exact bne_iff_ne.mpr fun heq => hk y hy (hkey.trans heq.symm)
  rw [get, get, List.lookup_append, hnone, Option.or_none]

theorem hasKey_append_ofList {k : κ} (hk : ∀ y ∈ ys, key y ≠ k) :
    hasKey (g ++ ofList key ys) k = g.hasKey k := by
  have hnone : (ofList key ys).any (·.1 == k) = false := by
    refine List.any_eq_false.mpr fun e he heq => ?_
    obtain ⟨y, hy, hkey⟩ := (holds_ofList key ys).mem_keys.mp (List.mem_map_of_mem he)
    exact hk y hy (hkey.trans (LawfulBEq.eq_of_beq heq))
  rw [hasKey, hasKey, List.any_append, hnone, Bool.or_false]

end

end TypeLoom.Grouping
