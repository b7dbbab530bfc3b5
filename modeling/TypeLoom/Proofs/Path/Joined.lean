import TypeLoom.Proofs.Path.Parent

/-!
# Joined paths

A relative path is put after the text of a base, with one separator between them. Joining is
associative in the spelling of paths, and what a joined path denotes is what the base denotes
followed by the steps of the path: a leading `.` of the path is lost.
-/

namespace TypeLoom

theorem Text.splitAt_eq_nil_piece {sep : Char → Bool} {cs : List Char}
    (h : Text.splitAt sep cs = [[]]) : cs = [] := by
  cases cs with
  | nil => rfl
  | cons c cs =>
    rw [Text.splitAt] at h
    split at h
    · exact absurd (List.cons.inj h).2 (Text.splitAt_ne_nil sep cs)
    · split at h <;> cases h

/-- A text without separators lengthens the last piece. -/
theorem Text.splitAt_append (sep : Char → Bool) {ds : List Char} (hds : ∀ c ∈ ds, sep c = false)
    (cs : List Char) :
    ∃ initial piece, Text.splitAt sep cs = initial ++ [piece] ∧
      Text.splitAt sep (cs ++ ds) = initial ++ [piece ++ ds] := by
  induction cs with
  | nil => exact ⟨[], [], rfl, Text.splitAt_eq_singleton hds⟩
  | cons c cs ih =>
    obtain ⟨initial, piece, hcs, happend⟩ := ih
    rw [List.cons_append, Text.splitAt, Text.splitAt, hcs, happend]
    split
    · exact ⟨[] :: initial, piece, rfl, rfl⟩
    · cases initial with
      | nil => exact ⟨[], c :: piece, rfl, rfl⟩
      | cons first rest => exact ⟨(c :: first) :: rest, piece, rfl, rfl⟩

namespace Path

/-! ### The text of a joined path -/

/-- The text that a relative path is put after. -/
def openEnd (cs : List Char) : List Char :=
  if cs.isEmpty || cs.getLast? == some '/' then cs else cs ++ ['/']

theorem openEnd_cases {cs : List Char} (hne : cs ≠ []) :
    ∃ ds, openEnd cs = ds ++ ['/'] ∧ (cs = ds ∨ cs = ds ++ ['/']) := by
  unfold openEnd
  split
  · rename_i hclosed
    have hlast : cs.getLast? = some '/' := by simpa [hne] using hclosed
    obtain ⟨ds, rfl⟩ := List.getLast?_eq_some_iff.mp hlast
    exact ⟨ds, rfl, .inr rfl⟩
  · exact ⟨cs, rfl, .inl rfl⟩

theorem openEnd_openEnd (cs : List Char) : openEnd (openEnd cs) = openEnd cs := by
  by_cases hne : cs = []
  · subst hne
    rfl
  · obtain ⟨ds, hds, -⟩ := openEnd_cases hne
    rw [hds, openEnd, if_pos (by simp)]

theorem openEnd_append_of_ne_nil (front : List Char) {cs : List Char} (hne : cs ≠ []) :
    openEnd (front ++ cs) = front ++ openEnd cs := by
  have hempty : (front ++ cs).isEmpty = cs.isEmpty := by
    rw [Bool.eq_iff_iff, List.isEmpty_iff, List.isEmpty_iff]
    simp [hne]
  rw [openEnd, openEnd, List.getLast?_append_of_ne_nil front hne, hempty]
  split
  · rfl
  · rw [List.append_assoc]

theorem openEnd_append (cs ds : List Char) :
    openEnd (openEnd cs ++ ds) = openEnd cs ++ openEnd ds := by
  by_cases hne : ds = []
  · subst hne
    rw [List.append_nil, openEnd_openEnd]
    exact (List.append_nil _).symm
  · exact openEnd_append_of_ne_nil _ hne

variable {p base : Path}

theorem join_absolute (h : p.isAbsolute = true) : base.join p = p := by
  rw [join, if_pos h]

theorem toList_join (h : p.isAbsolute = false) :
    (base.join p).raw.toList = openEnd base.raw.toList ++ p.raw.toList := by
  have hempty : base.raw.toList.isEmpty = base.raw.isEmpty := by
    rw [Bool.eq_iff_iff, List.isEmpty_iff, String.isEmpty_iff, String.toList_eq_nil_iff]
  rw [join, if_neg (by simp [h]), openEnd, hempty]
  split
  · exact String.toList_append
  · simp [String.toList_append]

theorem empty_join (h : p.isAbsolute = false) : join ⟨""⟩ p = p := by
  have hraw : (join ⟨""⟩ p).raw = p.raw := String.toList_inj.mp (toList_join h)
  exact congrArg Path.mk hraw

theorem isAbsolute_join (base p : Path) :
    (base.join p).isAbsolute = (base.isAbsolute || p.isAbsolute) := by
  cases hp : p.isAbsolute with
  | true => rw [join_absolute hp, hp, Bool.or_true]
  | false =>
    rw [Bool.or_false, isAbsolute, toList_join hp]
    cases hbase : base.raw.toList with
    | nil =>
      rw [isAbsolute, hbase]
      exact hp
    | cons c cs =>
      have hhead : (openEnd (c :: cs)).head? = some c := by
        rw [openEnd]
        split <;> rfl
      rw [List.head?_append, hhead, isAbsolute, hbase]
      rfl

/-- Paths are joined in any order. -/
theorem join_assoc (a b c : Path) : (a.join b).join c = a.join (b.join c) := by
  have habsolute := isAbsolute_join b c
  cases hc : c.isAbsolute with
  | true => rw [join_absolute hc, join_absolute hc, join_absolute hc]
  | false =>
    rw [hc, Bool.or_false] at habsolute
    cases hb : b.isAbsolute with
    | true => rw [join_absolute hb, join_absolute (habsolute.trans hb)]
    | false =>
      have hraw : ((a.join b).join c).raw = (a.join (b.join c)).raw := by
        rw [← String.toList_inj, toList_join hc, toList_join hb,
          toList_join (habsolute.trans hb), toList_join hc, openEnd_append, List.append_assoc]
      exact congrArg Path.mk hraw

/-! ### What a joined path denotes -/

/-- The components of a path after what it starts from. -/
def stepComponents (p : Path) : List Component := (denoting p.pieces).map stepComponent

/-- What a path with the given pieces starts from. -/
def startOf : List String → List Component
  | "" :: _ :: _ => [.root]
  | "." :: _ => [.here]
  | _ => []

theorem components_eq_startOf (p : Path) : p.components = startOf p.pieces ++ p.stepComponents := by
  rw [components_eq, stepComponents]
  rcases p.split_cases with ⟨step, steps, hp, he⟩ | ⟨steps, hp, he⟩ | ⟨he, hhead⟩
  · rw [hp, he]
    rfl
  · rw [hp, he]
    rfl
  · have hstart : startOf p.pieces = [] := by
      rcases hhead with hempty | hhead
      · rw [hempty]
        rfl
      · unfold startOf
        split
        · rename_i hpieces
          exact absurd (hhead "" (by rw [hpieces]; rfl)) (by decide)
        · rename_i hpieces
          exact absurd (hhead "." (by rw [hpieces]; rfl)) (by decide)
        · rfl
    rw [he, hstart]
    rfl

theorem mem_stepComponents {p : Path} {c : Component} (h : c ∈ p.stepComponents) :
    c = .up ∨ ∃ n, c = .name n := by
  obtain ⟨step, -, rfl⟩ := List.mem_map.mp h
  unfold stepComponent
  split
  · exact .inl rfl
  · exact .inr ⟨step, rfl⟩

theorem mem_components_of_step {c : Component} (h : c ∈ p.stepComponents) : c ∈ p.components := by
  rw [components_eq_startOf]
  exact List.mem_append_right _ h

theorem mem_components_cases {c : Component} (h : c ∈ p.components) :
    c = .root ∨ c = .here ∨ c ∈ p.stepComponents := by
  rw [components_eq_startOf] at h
  rcases List.mem_append.mp h with h | h
  · unfold startOf at h
    split at h
    · exact .inl (List.mem_singleton.mp h)
    · exact .inr (.inl (List.mem_singleton.mp h))
    · cases h
  · exact .inr (.inr h)

/-- The pieces of a joined path are those of the base, less an empty one at their end, and those of
the path. -/
theorem pieces_join (h : p.isAbsolute = false) (hbase : base.raw ≠ "") :
    ∃ initial, initial ≠ [] ∧ (base.pieces = initial ∨ base.pieces = initial ++ [""]) ∧
      (base.join p).pieces = initial ++ p.pieces := by
  have hne : base.raw.toList ≠ [] := fun hnil => hbase (String.toList_eq_nil_iff.mp hnil)
  obtain ⟨cs, hopen, hcs⟩ := openEnd_cases hne
  refine ⟨(Text.splitAt (· == '/') cs).map String.ofList, ?_, ?_, ?_⟩
  · simpa using Text.splitAt_ne_nil _ cs
  · unfold pieces
    refine hcs.imp (fun hraw => by rw [hraw]) fun hraw => ?_
    rw [hraw, Text.splitAt_concat (by simp), List.map_append]
    rfl
  · rw [pieces, toList_join h, hopen, List.append_assoc, List.singleton_append,
      Text.splitAt_append_cons (by simp), List.map_append]
    rfl

/-- Of the first piece and those after it, no more counts than whether there are any. -/
theorem startOf_congr {first : String} {rest rest' : List String}
    (h : first = "" → (rest = [] ↔ rest' = [])) :
    startOf (first :: rest) = startOf (first :: rest') := by
  by_cases hempty : first = ""
  · subst hempty
    have hiff := h rfl
    cases rest with
    | nil => rw [hiff.mp rfl]
    | cons step steps =>
      cases rest' with
      | nil => exact absurd (hiff.mpr rfl) (List.cons_ne_nil step steps)
      | cons step' steps' => rfl
  · by_cases hdot : first = "."
    · subst hdot
      rfl
    · simp [startOf, hempty, hdot]

theorem stepComponents_join (base : Path) (h : p.isAbsolute = false) :
    (base.join p).stepComponents = base.stepComponents ++ p.stepComponents := by
  by_cases hraw : base.raw = ""
  · obtain rfl : base = ⟨""⟩ := congrArg Path.mk hraw
    rw [empty_join h]
    rfl
  · obtain ⟨initial, -, hbase, hpieces⟩ := pieces_join h hraw
    have hdenoting : denoting base.pieces = denoting initial := by
      rcases hbase with hbase | hbase <;> simp [hbase, denoting, isIdle]
    unfold stepComponents
    rw [hpieces, hdenoting, denoting, List.filter_append, List.map_append]
    rfl

theorem components_join (h : p.isAbsolute = false) (hraw : base.raw ≠ "") :
    (base.join p).components = base.components ++ p.stepComponents := by
  obtain ⟨initial, hne, hbase, hpieces⟩ := pieces_join h hraw
  obtain ⟨first, rest, rfl⟩ := List.exists_cons_of_ne_nil hne
  have hmore : p.pieces ≠ [] := by simpa [pieces] using Text.splitAt_ne_nil _ p.raw.toList
  have hstart : startOf (base.join p).pieces = startOf base.pieces := by
    rw [hpieces]
    rcases hbase with hbase | hbase
    · rw [hbase]
      refine startOf_congr fun hempty => ?_
      have hrest : rest ≠ [] := by
        rintro rfl
        rw [hempty, pieces] at hbase
        have hsplit : Text.splitAt (· == '/') base.raw.toList = [[]] := by
          have hmap := congrArg (List.map String.toList) hbase
          simpa [List.map_map, Function.comp_def] using hmap
        exact hraw (String.toList_eq_nil_iff.mp (Text.splitAt_eq_nil_piece hsplit))
      simp [hrest]
    · rw [hbase]
      exact startOf_congr fun _ => by simp [hmore]
  rw [components_eq_startOf, components_eq_startOf base, hstart, stepComponents_join base h,
    List.append_assoc]

/-- A relative path starts with at most a `.`. -/
theorem components_relative (h : p.isAbsolute = false) :
    p.components = p.stepComponents ∨ p.components = .here :: p.stepComponents := by
  rw [components_eq_startOf]
  have hroot : ¬ ∃ step steps, p.pieces = "" :: step :: steps := by
    rw [← isAbsolute_iff, h]
    exact Bool.false_ne_true
  unfold startOf
  split
  · rename_i hpieces
    exact absurd ⟨_, _, hpieces⟩ hroot
  · exact .inr rfl
  · exact .inl rfl

/-! ### Paths of names -/

/-- A path that leads down, one name after the other. -/
def Plain (p : Path) : Prop := ∀ c ∈ p.components, ∃ n, c = .name n

theorem plain_empty : Plain ⟨""⟩ := by
  intro c hc
  rw [components_empty] at hc
  cases hc

theorem Plain.isAbsolute_eq (h : p.Plain) : p.isAbsolute = false := by
  rw [Bool.eq_false_iff]
  intro habsolute
  obtain ⟨step, steps, hpieces⟩ := isAbsolute_iff.mp habsolute
  have hroot : Component.root ∈ p.components := by
    rw [components_eq_startOf, hpieces]
    exact List.mem_cons_self
  obtain ⟨n, hn⟩ := h _ hroot
  cases hn

theorem Plain.up_notMem (h : p.Plain) : .up ∉ p.components := fun hmem => by
  obtain ⟨n, hn⟩ := h _ hmem
  cases hn

theorem Plain.here_notMem (h : p.Plain) : .here ∉ p.components := fun hmem => by
  obtain ⟨n, hn⟩ := h _ hmem
  cases hn

theorem Plain.join (hbase : base.Plain) (h : p.Plain) : (base.join p).Plain := by
  by_cases hraw : base.raw = ""
  · obtain rfl : base = ⟨""⟩ := congrArg Path.mk hraw
    rwa [empty_join h.isAbsolute_eq]
  · intro c hc
    rw [components_join h.isAbsolute_eq hraw] at hc
    exact (List.mem_append.mp hc).elim (hbase c) fun hstep => h c (mem_components_of_step hstep)

/-- A step that does not lead up is a path of one name, or of none. -/
theorem plain_step {s : String} (hstep : IsStep s) (hhere : s ≠ ".") (hup : s ≠ "..") :
    Plain ⟨s⟩ := by
  have hpieces : pieces ⟨s⟩ = [s] :=
    @pieces_intercalate [s] (by simp) (by simpa using hstep)
  have hstart : startOf [s] = [] := by
    unfold startOf
    split <;> simp_all
  intro c hc
  rw [components_eq_startOf, stepComponents, hpieces, hstart, List.nil_append] at hc
  obtain ⟨t, ht, rfl⟩ := List.mem_map.mp hc
  obtain rfl := List.mem_singleton.mp (List.mem_filter.mp ht).1
  exact ⟨t, if_neg (by simpa using hup)⟩

theorem plain_fileName (p : Path) : Plain ⟨p.fileName?.getD ""⟩ := by
  cases hname : p.fileName? with
  | none => exact plain_empty
  | some n =>
    have hmem : .name n ∈ p.components := List.mem_of_getLast? (fileName?_eq_some.mp hname)
    have hstep : stepComponent n = .name n ∧ isIdle n = false := by
      have hsteps : .name n ∈ p.stepComponents := by simpa using mem_components_cases hmem
      obtain ⟨s, hs, hcomponent⟩ := List.mem_map.mp hsteps
      obtain rfl := eq_of_stepComponent hcomponent
      exact ⟨hcomponent, by simpa using (List.mem_filter.mp hs).2⟩
    refine plain_step (isStep_of_mem_components hmem) ?_ ?_
    · rintro rfl
      exact absurd hstep.2 (by decide)
    · rintro rfl
      exact absurd hstep.1 (by decide)

/-- What stands above a path of names is a path of names. -/
theorem Plain.parent (h : p.Plain) : Plain (p.parent?.getD ⟨""⟩) :=
  fun c hc => h c ((parent_initial p).subset hc)

end Path

end TypeLoom
