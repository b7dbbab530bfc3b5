import TypeLoom.Proofs.Files.Furnished

/-!
# Directories that are created for paths

A path below which a directory is created leads to directories all the way. Main statement: if
directories are created for the same paths in other orders, and all of them come to lead to
directories, the trees that result are the same.
-/

namespace TypeLoom.Files.Tree

open TypeLoom.Path (Begins)

/-! ### The way to a directory -/

section

variable {t : Tree} {place : Place} {entry : Entry} {more : List String}

theorem pursue_prefix {hop : Place → List String → Trail} (hmore : more ≠ [])
    (hhop : ∀ dir steps, hop dir (steps ++ more) = .present place entry →
      ∃ place', hop dir steps = .present place' .directory)
    {dir : Place} {steps : List String}
    (hp : t.pursue true hop dir (steps ++ more) = .present place entry) :
    ∃ place', t.pursue true hop dir steps = .present place' .directory := by
  induction steps generalizing dir with
  | nil => exact ⟨dir, rfl⟩
  | cons step steps ih =>
    rw [List.cons_append] at hp
    cases hidle : Path.isIdle step with
    | true =>
      rw [pursue_idle hidle] at hp ⊢
      exact ih hp
    | false =>
      by_cases hup : step = ".."
      · rw [pursue_up hidle hup] at hp ⊢
        exact ih hp
      · rw [pursue_name hidle hup] at hp ⊢
        cases ha : t.at? (dir ++ [step]) with
        | none =>
          rw [ha] at hp
          cases hp
        | some e =>
          rw [ha] at hp
          cases e with
          | directory => exact ih hp
          | file content =>
            dsimp only at hp
            rw [if_neg (by simp [hmore])] at hp
            cases hp
          | link target =>
            simp only [Bool.not_true, Bool.and_false, Bool.false_eq_true, if_false] at hp ⊢
            rw [← List.append_assoc] at hp
            exact hhop _ _ hp

/-- The first steps of a path that leads to something lead to a directory. -/
theorem pursueWithin_prefix (hmore : more ≠ []) (n : Nat) {dir : Place} {steps : List String}
    (hp : t.pursueWithin true n dir (steps ++ more) = .present place entry) :
    ∃ place', t.pursueWithin true n dir steps = .present place' .directory := by
  induction n generalizing dir steps with
  | zero => cases hp
  | succ n ih => exact pursue_prefix hmore (fun _ _ => ih) hp

/-- What another path begins with leads to a directory if that path leads to something. -/
theorem kind_of_begins {q p : Path} (h : Begins q p) (hq : q.raw.isEmpty = false) {k : Kind}
    (hp : t.kind p = .ok k) : t.kind q = .ok .directory := by
  obtain ⟨place, entry, htrail⟩ := present_of_kind hp
  obtain ⟨more, hsteps, hmore⟩ := h.pieces
  have hstart : start t.home p = start t.home q := by
    rw [start, start, h.absolute]
  have hne : more ≠ [] := fun hnil => hmore (by rw [hnil]; rfl)
  rw [trail] at htrail
  split at htrail
  · cases htrail
  · rw [show steps p = steps q ++ more from hsteps, hstart] at htrail
    rw [kind_directory_iff, trail, if_neg (by simp [hq])]
    exact pursueWithin_prefix hne _ htrail

theorem kind_root (t : Tree) : t.kind ⟨"/"⟩ = .ok .directory := rfl

/-- The paths above a path, as far as they are not empty. -/
theorem mem_lineage_cases {q r : Path} {n : Nat} (hr : r ∈ lineage n q) :
    r.raw.isEmpty = false ∧ (r = q ∨ r = ⟨"/"⟩ ∨ Begins r q) := by
  induction n generalizing q with
  | zero => cases hr
  | succ n ih =>
    rw [lineage] at hr
    split at hr
    · cases hr
    · rename_i hne
      rcases List.mem_cons.mp hr with rfl | hr
      · exact ⟨(Bool.not_eq_true _).mp hne, .inl rfl⟩
      · split at hr
        · rename_i parent hparent
          obtain ⟨hr', hcases⟩ := ih hr
          refine ⟨hr', .inr ?_⟩
          rcases Path.parent?_cases hparent with rfl | rfl | hbegins
          · cases n <;> cases hr
          · cases n with
            | zero => cases hr
            | succ n => exact .inl (List.mem_singleton.mp hr)
          · rcases hcases with rfl | hroot | h
            · exact .inr hbegins
            · exact .inl hroot
            · exact .inr (h.trans hbegins)
        · cases hr

theorem kind_of_mem_lineage {q r : Path} {n : Nat} (hr : r ∈ lineage n q)
    (hq : t.kind q = .ok .directory) : t.kind r = .ok .directory := by
  obtain ⟨hne, rfl | rfl | h⟩ := mem_lineage_cases hr
  · exact hq
  · exact kind_root t
  · exact kind_of_begins h hne hq

end

/-- From a directory, steps lead to directories that stand. -/
theorem pursue_stands {t : Tree} (h : t.Sound) {hop : Place → List String → Trail}
    (hhop : ∀ dir steps, t.at? dir = some .directory →
      ∀ place, hop dir steps = .present place .directory → t.at? place = some .directory)
    {dir : Place} {steps : List String} (hdir : t.at? dir = some .directory) {place : Place}
    (hp : t.pursue true hop dir steps = .present place .directory) :
    t.at? place = some .directory := by
  induction steps generalizing dir with
  | nil =>
    cases hp
    exact hdir
  | cons step steps ih =>
    cases hidle : Path.isIdle step with
    | true => exact ih hdir (pursue_idle hidle ▸ hp)
    | false =>
      by_cases hup : step = ".."
      · exact ih (h.nested _ _ hdir) (pursue_up hidle hup ▸ hp)
      · rw [pursue_name hidle hup] at hp
        split at hp
        · cases hp
        · rename_i ha
          exact ih ha hp
        · split at hp <;> cases hp
        · split at hp
          · cases hp
          · refine hhop _ _ ?_ _ hp
            unfold start
            split
            · rfl
            · exact hdir

theorem at?_of_trail_directory {t : Tree} (h : t.Sound) {p : Path} {place : Place}
    (hp : t.trail true p = .present place .directory) : t.at? place = some .directory := by
  have hwithin : ∀ n dir steps, t.at? dir = some .directory →
      ∀ place, t.pursueWithin true n dir steps = .present place .directory →
        t.at? place = some .directory := by
    intro n
    induction n with
    | zero => intro _ _ _ _ hp; cases hp
    | succ n ih => exact fun dir steps hdir place hp => pursue_stands h ih hdir hp
  unfold trail at hp
  split at hp
  · cases hp
  · refine hwithin _ _ _ ?_ _ hp
    unfold start
    split
    · rfl
    · exact h.home

/-! ### Directories that were created for paths -/

/-- A tree that was furnished with directories that some paths lead to. -/
structure Laid (ps : List Path) (t t' : Tree) : Prop where
  sound : t'.Sound
  furnished : Furnished t t'
  led : ∀ place, t.at? place = none → t'.at? place ≠ none →
    ∃ p ∈ ps, t'.trail true p = .present place .directory

namespace Laid

variable {ps qs : List Path} {t t' t'' t₁ t₂ : Tree}

theorem refl (hs : t.Sound) (ps : List Path) : Laid ps t t :=
  ⟨hs, .refl t, fun _ hnone hsome => absurd hnone hsome⟩

theorem mono (h : Laid ps t t') (hsub : ∀ p ∈ ps, p ∈ qs) : Laid qs t t' :=
  ⟨h.sound, h.furnished, fun place hnone hsome =>
    (h.led place hnone hsome).imp fun p hp => ⟨hsub p hp.1, hp.2⟩⟩

theorem trans (h : Laid ps t t') (h' : Laid ps t' t'') : Laid ps t t'' := by
  refine ⟨h'.sound, h.furnished.trans h'.furnished, fun place hnone hsome => ?_⟩
  by_cases hplace : t'.at? place = none
  · exact h'.led place hplace hsome
  · obtain ⟨p, hp, htrail⟩ := h.led place hnone hplace
    exact ⟨p, hp, h'.furnished.later.directory_trail htrail⟩

theorem createDirectory (hs : t.Sound) {p : Path} (hp : p ∈ ps) :
    Laid ps t (t.createDirectory p).2 := by
  refine ⟨sound_createDirectory hs p, furnished_createDirectory hs p, fun place hnone hsome => ?_⟩
  rcases hcreate : t.createDirectory p with ⟨e | _, t'⟩
  · rw [hcreate] at hsome
    have hsame : t' = t := by
      rcases createDirectory_cases hs p with h | ⟨_, hm, -⟩
      · rw [hcreate] at h
        exact h
      · rw [Tree.createDirectory, locate_eq, hm] at hcreate
        cases hcreate
    exact absurd (hsame ▸ hnone) hsome
  · rw [hcreate] at hsome
    obtain ⟨place', rfl, hvacant, htrail⟩ := trail_of_createDirectory hs hcreate
    have hne : place' ≠ [] := by
      rintro rfl
      cases hvacant.none
    obtain rfl : place = place' := by
      by_contra hother
      rw [at?_put t hne, if_neg hother] at hsome
      exact hsome hnone
    exact ⟨p, hp, htrail⟩

theorem createLineage (hs : t.Sound) (ps : List Path) :
    Laid ps t (worldAfter (Files.createLineage ps : StateM Tree _) t) :=
  createLineage_induction (I := fun t' => Laid ps t t')
    (fun _ hp _ h => h.trans (.createDirectory h.sound hp)) (.refl hs ps)

/-- What was created for paths stands wherever they lead to directories. -/
theorem stands (h₁ : Laid ps t t₁) (hs : t₂.Sound) (h₂ : Furnished t t₂)
    (hk : ∀ p ∈ ps, t₂.kind p = .ok .directory) {place : Place} (hnone : t.at? place = none)
    (hsome : t₁.at? place ≠ none) :
    t₁.at? place = some .directory ∧ t₂.at? place = some .directory := by
  obtain ⟨p, hp, htrail⟩ := h₁.led place hnone hsome
  have hsame := h₁.furnished.trail_eq h₂ (kind_directory_iff.mpr ⟨place, htrail⟩) (hk p hp)
  rw [htrail] at hsame
  exact ⟨at?_of_trail_directory h₁.sound htrail, at?_of_trail_directory hs hsame⟩

/-- In whichever order directories were created, the trees are the same if all paths lead to
directories in both. -/
theorem same (h₁ : Laid ps t t₁) (h₂ : Laid qs t t₂) (hk₁ : ∀ p ∈ qs, t₁.kind p = .ok .directory)
    (hk₂ : ∀ p ∈ ps, t₂.kind p = .ok .directory) : Same t₁ t₂ := by
  refine ⟨h₂.furnished.home.trans h₁.furnished.home.symm, fun place => ?_⟩
  cases hplace : t.at? place with
  | some e =>
    have hold : ∀ {t'}, Furnished t t' → t'.at? place = some e := by
      intro t' h
      rcases h.fills.entries place with hsame | ⟨-, hnone, -⟩ | ⟨hfile, -⟩
      · exact hsame.trans hplace
      · rw [hplace] at hnone
        cases hnone
      · exact hfile.elim
    rw [hold h₁.furnished, hold h₂.furnished]
  | none =>
    by_cases hnone : t₁.at? place = none
    · by_contra hsome
      rw [hnone] at hsome
      exact hsome (absurd hnone (by rw [(h₂.stands h₁.sound h₁.furnished hk₁ hplace hsome).2]; simp))
    · obtain ⟨hat₁, hat₂⟩ := h₁.stands h₂.sound h₂.furnished hk₂ hplace hnone
      rw [hat₁, hat₂]

end Laid

end TypeLoom.Files.Tree
