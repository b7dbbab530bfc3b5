import TypeLoom.Proofs.Path.Relative

/-!
# Paths and the paths above them

The pieces of a parent are the first pieces of a path, and a step that denotes something is missing.
Two parents are spelt otherwise: the root, and the empty path.
-/

namespace TypeLoom

theorem Text.splitAt_append_cons {sep : Char → Bool} {c : Char} (hc : sep c = true)
    (cs ds : List Char) :
    Text.splitAt sep (cs ++ c :: ds) = Text.splitAt sep cs ++ Text.splitAt sep ds := by
  induction cs with
  | nil => simp [Text.splitAt, hc]
  | cons d cs ih =>
    rw [List.cons_append, Text.splitAt, Text.splitAt, ih]
    split
    · rfl
    · cases hpieces : Text.splitAt sep cs with
      | nil => exact absurd hpieces (Text.splitAt_ne_nil sep cs)
      | cons piece pieces => rfl

theorem Text.splitAt_concat {sep : Char → Bool} {c : Char} (hc : sep c = true) (cs : List Char) :
    Text.splitAt sep (cs ++ [c]) = Text.splitAt sep cs ++ [[]] :=
  Text.splitAt_append_cons hc cs []

theorem Text.splitAt_eq_singleton {sep : Char → Bool} {cs : List Char}
    (h : ∀ c ∈ cs, sep c = false) : Text.splitAt sep cs = [cs] := by
  induction cs with
  | nil => rfl
  | cons c cs ih =>
    obtain ⟨hc, hcs⟩ := List.forall_mem_cons.mp h
    rw [Text.splitAt, if_neg (by simp [hc]), ih hcs]

namespace Path

/-- A path with a separator at its end has an empty last piece. -/
theorem getLast?_pieces {p : Path} (h : p.raw.toList.getLast? = some '/') :
    p.pieces.getLast? = some "" := by
  obtain ⟨cs, hcs⟩ : ∃ cs, p.raw.toList = cs ++ ['/'] :=
    ⟨_, (List.dropLast_append_getLast? '/' h).symm⟩
  rw [pieces, hcs, Text.splitAt_concat (by simp), List.map_append]
  simp

/-- A path is absolute if there are pieces after an empty first one. -/
theorem isAbsolute_iff {p : Path} :
    p.isAbsolute = true ↔ ∃ step steps, p.pieces = "" :: step :: steps := by
  unfold isAbsolute pieces
  cases hraw : p.raw.toList with
  | nil => simp [Text.splitAt]
  | cons c cs =>
    rw [Text.splitAt]
    by_cases hc : c = '/'
    · obtain ⟨piece, pieces, hpieces⟩ :=
        List.exists_cons_of_ne_nil (Text.splitAt_ne_nil (· == '/') cs)
      simp [hc, hpieces]
    · rw [if_neg (by simpa using hc)]
      cases Text.splitAt (· == '/') cs <;> simp [hc]

theorem isAbsolute_congr {p q : Path}
    (h : (∃ step steps, p.pieces = "" :: step :: steps) ↔
      ∃ step steps, q.pieces = "" :: step :: steps) :
    p.isAbsolute = q.isAbsolute := by
  rw [Bool.eq_iff_iff, isAbsolute_iff, isAbsolute_iff, h]

/-! ### The last step -/

theorem isIdle_getLast?_dropIdleEnd {steps : List String} {s : String}
    (h : (dropIdleEnd steps).getLast? = some s) : isIdle s = false := by
  rw [dropIdleEnd, List.getLast?_reverse] at h
  have hhead := List.head?_dropWhile_not isIdle steps.reverse
  rw [h] at hhead
  simpa using hhead

/-- What is dropped with the last step. -/
theorem dropLastStep_append {steps : List String} (h : dropIdleEnd steps ≠ []) :
    ∃ more, steps = dropLastStep steps ++ more ∧ denoting more ≠ [] := by
  obtain ⟨idle, hidle⟩ := dropIdleEnd_initial steps
  obtain ⟨between, hbetween⟩ := dropIdleEnd_initial (dropIdleEnd steps).dropLast
  have hlast := List.dropLast_append_getLast h
  have hname : isIdle ((dropIdleEnd steps).getLast h) = false :=
    isIdle_getLast?_dropIdleEnd (List.getLast?_eq_some_getLast h)
  refine ⟨between ++ [(dropIdleEnd steps).getLast h] ++ idle, ?_, ?_⟩
  · calc steps = dropIdleEnd steps ++ idle := hidle.symm
      _ = dropLastStep steps ++ (between ++ [(dropIdleEnd steps).getLast h] ++ idle) := by
        conv_lhs => rw [← hlast, ← hbetween]
        simp only [dropLastStep, List.append_assoc]
  · simp [denoting, hname]

/-- The path above another one denotes the first of its components. -/
theorem parent_initial (p : Path) : (p.parent?.getD ⟨""⟩).components <+: p.components := by
  unfold parent?
  generalize hsplit : p.split = cut
  obtain ⟨anchor, steps⟩ := cut
  dsimp only
  split
  · cases anchor <;> exact components_empty ▸ List.nil_prefix
  · have hinitial : (dropIdleEnd steps).dropLast <+: p.split.steps := by
      rw [hsplit]
      exact (List.dropLast_prefix _).trans (dropIdleEnd_initial _)
    have hdenotes := denotes_ofSplit hinitial
    rw [hsplit] at hdenotes
    rw [Option.getD_some, dropLastStep, hdenotes.components, components_eq, hsplit]
    rw [hsplit] at hinitial
    exact (List.prefix_append_right_inj _).mpr ((hinitial.filter _).map _)

theorem fileName?_eq_some {p : Path} {n : String} :
    p.fileName? = some n ↔ p.components.getLast? = some (.name n) := by
  unfold fileName?
  split
  · rename_i m hlast
    rw [hlast]
    simp
  · rename_i hother
    refine iff_of_false (by simp) fun hlast => ?_
    exact hother n hlast

/-- A path that ends with a name is the path above it and that name. -/
theorem components_parent {p : Path} {n : String} (h : p.fileName? = some n) :
    p.components = (p.parent?.getD ⟨""⟩).components ++ [.name n] := by
  have hlast := fileName?_eq_some.mp h
  have hsteps : dropIdleEnd p.split.steps ≠ [] := by
    intro hnil
    rw [components_eq, ← denoting_dropIdleEnd, hnil] at hlast
    cases hanchor : p.split.anchor <;> simp [hanchor, Anchor.components, denoting] at hlast
  have hparent : p.parent? = some (ofSplit ⟨p.split.anchor, dropLastStep p.split.steps⟩) := by
    unfold parent?
    generalize p.split = cut at hsteps
    exact if_neg (by simpa using hsteps)
  -- The last step is the name, and the path above it has the steps before.
  obtain ⟨initial, last, hends⟩ := (List.eq_nil_or_concat' _).resolve_left hsteps
  have hidle : isIdle last = false :=
    isIdle_getLast?_dropIdleEnd (by rw [hends, List.getLast?_concat])
  have hinitial : initial <+: p.split.steps :=
    (List.prefix_append initial [last]).trans (hends ▸ dropIdleEnd_initial _)
  have hcomponents : p.components =
      p.split.anchor.components ++
        (denoting initial).map stepComponent ++ [stepComponent last] := by
    rw [components_eq, ← denoting_dropIdleEnd, hends, denoting, List.filter_append]
    simp [denoting, hidle]
  have hname : stepComponent last = .name n := by simpa [hcomponents] using hlast
  rw [hparent, Option.getD_some, dropLastStep, hends, List.dropLast_concat,
    (denotes_ofSplit hinitial).components, hcomponents, hname]

/-- A path that another one begins with, up to a separator. -/
structure Begins (q p : Path) : Prop where
  pieces : ∃ more, p.pieces = q.pieces ++ more ∧ denoting more ≠ []
  absolute : q.isAbsolute = p.isAbsolute
  closed : q.raw.toList.getLast? ≠ some '/'

theorem Begins.trans {r q p : Path} (h : Begins r q) (h' : Begins q p) : Begins r p := by
  obtain ⟨more, hq, hmore⟩ := h.pieces
  obtain ⟨more', hp, -⟩ := h'.pieces
  refine ⟨⟨more ++ more', ?_, ?_⟩, h.absolute.trans h'.absolute, h.closed⟩
  · rw [hp, hq, List.append_assoc]
  · intro hnil
    rw [denoting, List.filter_append] at hnil
    exact hmore (List.append_eq_nil_iff.1 hnil).1

/-- Paths are cut before a step that denotes something: the path made from the pieces before it, of
which the last must denote something too or be the first. -/
theorem begins_intercalate {p : Path} {first : String} {steps more : List String}
    (hp : p.pieces = first :: steps ++ more) (hmore : denoting more ≠ [])
    (hfirst : first = "" → steps ≠ [])
    (hend : ∀ s, steps.getLast? = some s → isIdle s = false) :
    Begins ⟨"/".intercalate (first :: steps)⟩ p := by
  have hsteps : ∀ s ∈ first :: steps, IsStep s := fun s hs =>
    isStep_of_mem_pieces (p := p) (hp ▸ List.mem_append_left more hs)
  have hpieces : pieces ⟨"/".intercalate (first :: steps)⟩ = first :: steps :=
    pieces_intercalate (List.cons_ne_nil first steps) hsteps
  have hne : more ≠ [] := by
    rintro rfl
    exact hmore rfl
  refine ⟨⟨more, by rw [hpieces, hp], hmore⟩, isAbsolute_congr ?_, fun hlast => ?_⟩
  · rw [hpieces, hp]
    cases steps with
    | nil =>
      constructor
      · rintro ⟨step, steps, h⟩
        cases h
      · rintro ⟨step, steps, h⟩
        obtain ⟨rfl, -⟩ := List.cons.inj h
        exact absurd rfl (hfirst rfl)
    | cons step steps => simp
  · have hempty := getLast?_pieces hlast
    rw [hpieces] at hempty
    cases steps with
    | nil =>
      obtain rfl : first = "" := by simpa using hempty
      exact hfirst rfl rfl
    | cons step steps =>
      rw [List.getLast?_cons_cons] at hempty
      exact absurd (hend "" hempty) (by decide)

/-- What stands above a path. -/
theorem parent?_cases {p q : Path} (h : p.parent? = some q) :
    q = ⟨""⟩ ∨ q = ⟨"/"⟩ ∨ Begins q p := by
  unfold parent? at h
  generalize hsplit : p.split = cut at h
  obtain ⟨anchor, steps⟩ := cut
  dsimp only at h
  split at h
  · -- Without a step that denotes something only `.` has anything above it.
    cases anchor <;> cases h
    exact .inl rfl
  · rename_i hne
    obtain ⟨more, hcut, hmore⟩ := dropLastStep_append (by simpa using hne)
    have hend (s : String) (hs : (dropLastStep steps).getLast? = some s) : isIdle s = false :=
      isIdle_getLast?_dropIdleEnd hs
    obtain rfl := Option.some.inj h
    generalize dropLastStep steps = initial at hcut hend
    rcases p.split_cases with ⟨step, rest, hp, he⟩ | ⟨rest, hp, he⟩ | ⟨he, hhead⟩
    · cases hsplit.symm.trans he
      cases initial with
      | nil => exact .inr (.inl rfl)
      | cons name names =>
        have hraw : ofSplit ⟨.root, name :: names⟩ = ⟨"/".intercalate ("" :: name :: names)⟩ := by
          rw [ofSplit, Path.mk.injEq, ← String.toList_inj]
          simp
        rw [hraw]
        exact .inr (.inr (begins_intercalate (by rw [hp, hcut]; rfl) hmore (by simp) hend))
    · cases hsplit.symm.trans he
      exact .inr (.inr (begins_intercalate (by rw [hp, hcut]; rfl) hmore (by simp) hend))
    · cases hsplit.symm.trans he
      cases initial with
      | nil => exact .inl rfl
      | cons name names =>
        refine .inr (.inr (begins_intercalate hcut hmore ?_ fun s hs => ?_))
        · rintro rfl rfl
          rcases hhead with hempty | hhead
          · rw [hempty] at hne
            exact hne (by decide)
          · exact absurd (hhead "" (by rw [hcut]; rfl)) (by decide)
        · cases names with
          | nil => cases hs
          | cons n ns => exact hend s (by rwa [List.getLast?_cons_cons])

end Path

end TypeLoom
