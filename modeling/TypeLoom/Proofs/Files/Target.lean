import TypeLoom.Proofs.Files.Trail
import TypeLoom.Proofs.Path.Relative

/-!
# The places that paths stand for

A path stands for the place it leads to, also where nothing stands there yet and directories above
it are missing. A path that steps up after a missing directory stands for no place: where it leads
changes as soon as the directory is created. Main statements: a tree in which other places were
filled answers for a path as before, and creating the directories above a path and writing to it
fills nothing but its place and the missing places above.
-/

namespace TypeLoom.Files

open TypeLoom.Path (denoting)

namespace Trail

/-- The place that is meant. -/
def target? : Trail → Option Place
  | .present place _ => some place
  | .missing place rest => if ".." ∈ rest then none else some (place ++ denoting rest)
  | .failed _ => none

/-- Whether no step up is left after a missing directory. -/
def settled : Trail → Bool
  | .missing _ rest => ".." ∉ rest
  | _ => true

theorem target?_missing {place : Place} {rest : List String} (h : ".." ∉ rest) :
    (missing place rest).target? = some (place ++ denoting rest) := if_neg h

end Trail

namespace Tree

/-- The places above the one that is meant. -/
def above (τ : Trail) (q : Place) : Prop := ∃ place, τ.target? = some place ∧ q <+: place ∧ q ≠ place

/-- The place that is meant. -/
def spot (τ : Trail) (q : Place) : Prop := τ.target? = some q

/-- What a tree answers for a path is the same. -/
structure Kept (t t' : Tree) (p : Path) : Prop where
  kind : t'.kind p = t.kind p
  read : t'.read p = t.read p

theorem Kept.trans {t t' t'' : Tree} {p : Path} (h : Kept t t' p) (h' : Kept t' t'' p) :
    Kept t t'' p := ⟨h'.kind.trans h.kind, h'.read.trans h.read⟩

theorem Kept.refl (t : Tree) (p : Path) : Kept t t p := ⟨rfl, rfl⟩

theorem kept_of_trail_eq {t t' : Tree} {p : Path} (h : t'.trail true p = t.trail true p) :
    Kept t t' p := by
  constructor
  · rw [kind, kind, locate_eq, locate_eq, h]
  · rw [read, read, locate_eq, locate_eq, h]

/-- Where nothing stands it does not matter which steps are left. -/
theorem kept_of_missing {t t' : Tree} {p : Path} {place place' : Place} {rest rest' : List String}
    (h : t.trail true p = .missing place rest) (h' : t'.trail true p = .missing place' rest') :
    Kept t t' p := by
  constructor
  · rw [kind, kind, locate_eq, locate_eq, h, h']
    cases rest <;> cases rest' <;> rfl
  · rw [read, read, locate_eq, locate_eq, h, h']
    cases rest <;> cases rest' <;> rfl

/-- Steps down through directories, to a place where nothing stands. -/
theorem pursue_below {t : Tree} {hop : Place → List String → Trail} {dir : Place}
    {steps : List String} (hup : ".." ∉ steps) (hdir : t.at? dir = some .directory)
    (hbelow : ∀ q, q <+: dir ++ denoting steps → dir <+: q → q ≠ dir →
      t.at? q = none ∨ t.at? q = some .directory)
    (hend : t.at? (dir ++ denoting steps) = none) :
    ∃ place rest, t.pursue true hop dir steps = .missing place rest ∧ ".." ∉ rest ∧
      place ++ denoting rest = dir ++ denoting steps := by
  induction steps generalizing dir with
  | nil =>
    rw [denoting, List.filter_nil, List.append_nil, hdir] at hend
    cases hend
  | cons step rest ih =>
    obtain ⟨hstep, hrest⟩ : step ≠ ".." ∧ ".." ∉ rest := by
      simpa [eq_comm] using hup
    cases hidle : Path.isIdle step with
    | true =>
      have hd : denoting (step :: rest) = denoting rest := by simp [denoting, hidle]
      rw [hd] at hbelow hend ⊢
      rw [pursue_idle hidle]
      exact ih hrest hdir hbelow hend
    | false =>
      have hd : dir ++ denoting (step :: rest) = (dir ++ [step]) ++ denoting rest := by
        simp [denoting, hidle]
      rw [hd] at hbelow hend ⊢
      rw [pursue_name hidle hstep]
      rcases hbelow (dir ++ [step]) (List.prefix_append _ _) (List.prefix_append _ _) (by simp) with
        ha | ha
      · rw [ha]
        exact ⟨_, _, rfl, hrest, rfl⟩
      · rw [ha]
        refine ih hrest ha (fun q hq hq' hne => hbelow q hq ?_ ?_) hend
        · exact (List.prefix_append dir [step]).trans hq'
        · rintro rfl
          exact absurd hq'.length_le (by simp)

section

variable {dirs files : Place → Prop} {t t' : Tree} {p : Path}

/-- A path that leads to nothing still does, and is meant for the same place, if no directory was
created at that place and no file on the way to it. -/
theorem trail_missing_of_fills (hs : t.Sound) (h : Fills dirs files t t') {place : Place}
    {rest : List String} (hm : t.trail true p = .missing place rest) (hup : ".." ∉ rest)
    (hdirs : ¬ dirs (place ++ denoting rest))
    (hfiles : ∀ q, files q → ¬ q <+: place ++ denoting rest) :
    ∃ place' rest', t'.trail true p = .missing place' rest' ∧ ".." ∉ rest' ∧
      place' ++ denoting rest' = place ++ denoting rest := by
  have hv := trail_vacant hs hm
  have hr := trail_resumes h p
  rw [hm] at hr
  generalize t'.trail true p = τ at hr ⊢
  cases hr with
  | @missing dir step rest hop hidle hstep =>
    have hd : dir ++ [step] ++ denoting rest = dir ++ denoting (step :: rest) := by
      simp [denoting, hidle]
    have hdir : t.at? dir = some .directory := by
      simpa using hv.parent
    -- Whatever stands on the way now was created there.
    have hway : ∀ q, q <+: dir ++ [step] ++ denoting rest → dir <+: q → q ≠ dir →
        t'.at? q = none ∨ t'.at? q = some .directory ∧ dirs q := by
      intro q hq hdq hne
      have hnone : t.at? q = none := by
        obtain ⟨more, rfl⟩ := hdq
        cases more with
        | nil => simp at hne
        | cons name more =>
          obtain ⟨rfl, -⟩ : name = step ∧ _ := by
            simpa using hq
          rw [List.append_cons]
          exact hs.at?_append_eq_none hv.none more
      rcases h.entries q with he | ⟨hdq', -, he⟩ | ⟨hf, -, -⟩
      · exact .inl (he.trans hnone)
      · exact .inr ⟨he, hdq'⟩
      · exact absurd hq (hfiles q hf)
    rw [hd] at hway hdirs ⊢
    refine pursue_below (by simp [hup, hstep.symm]) (h.directory hdir) (fun q hq hdq hne => ?_) ?_
    · exact (hway q hq hdq hne).imp_right And.left
    · refine (hway _ List.prefix_rfl (List.prefix_append _ _) ?_).resolve_right fun hd' => hdirs hd'.2
      simp [denoting, hidle]

/-- Filling other places than the one that a path is meant for changes nothing for the path. -/
theorem kept_of_fills (hs : t.Sound) (h : Fills dirs files t t')
    (hsettled : (t.trail true p).settled = true)
    (hother : ∀ place, (t.trail true p).target? = some place →
      ¬ dirs place ∧ ∀ q, files q → ¬ q <+: place) :
    Kept t t' p ∧ (t'.trail true p).target? = (t.trail true p).target? ∧
      (t'.trail true p).settled = true := by
  have hr := trail_resumes h p
  cases hm : t.trail true p with
  | failed e =>
    rw [hm] at hr
    generalize ht : t'.trail true p = τ at hr
    cases hr
    exact ⟨kept_of_trail_eq (ht.trans hm.symm), rfl, rfl⟩
  | present place entry =>
    rw [hm] at hr hother
    generalize ht : t'.trail true p = τ at hr
    cases hr with
    | directory => exact ⟨kept_of_trail_eq (ht.trans hm.symm), rfl, rfl⟩
    | @file _ content content' ha ha' =>
      have hfile : ¬ files place := fun hf => (hother place rfl).2 place hf List.prefix_rfl
      obtain ⟨content'', hc, hsame⟩ := h.file ha
      obtain rfl : content'' = content' := by
        rw [ha'] at hc
        cases hc
        rfl
      rw [hsame hfile] at ht ⊢
      exact ⟨kept_of_trail_eq (ht.trans hm.symm), rfl, rfl⟩
  | missing place rest =>
    rw [hm] at hsettled hother
    have hup : ".." ∉ rest := of_decide_eq_true hsettled
    obtain ⟨hd, hf⟩ := hother _ (Trail.target?_missing hup)
    obtain ⟨place', rest', hm', hup', hsame⟩ := trail_missing_of_fills hs h hm hup hd hf
    rw [hm', Trail.target?_missing hup, Trail.target?_missing hup', hsame]
    exact ⟨kept_of_missing hm hm', rfl, decide_eq_true hup'⟩

end

/-! ### Putting something at a place -/

section

variable {dirs files : Place → Prop} {t : Tree} {place : Place}

theorem Sound.put (h : t.Sound) (hparent : t.at? place.dropLast = some .directory)
    (hplace : t.at? place ≠ some .directory) (e : Entry) : (t.put place e).Sound := by
  have hne : place ≠ [] := by
    rintro rfl
    exact hplace rfl
  have hold {q : Place} (hq : t.at? q = some .directory) :
      (t.put place e).at? q = some .directory := by
    rw [at?_put t hne, if_neg]
    · exact hq
    · rintro rfl
      exact hplace hq
  constructor
  · exact hold h.home
  · intro q f hq
    rw [at?_put t hne] at hq
    split at hq
    · rename_i he
      exact he ▸ hold hparent
    · exact hold (h.nested q f hq)

theorem fills_put_directory (hn : t.at? place = none) (hd : dirs place) :
    Fills dirs files t (t.put place .directory) := by
  have hne : place ≠ [] := by
    rintro rfl
    cases hn
  refine ⟨rfl, fun q => ?_⟩
  rw [at?_put t hne]
  by_cases hq : q = place
  · rw [if_pos hq]
    exact .inr (.inl ⟨hq ▸ hd, hq ▸ hn, rfl⟩)
  · exact .inl (if_neg hq)

theorem fills_put_file (ha : t.at? place = none ∨ ∃ content, t.at? place = some (.file content))
    (hf : files place) (content : List UInt8) :
    Fills dirs files t (t.put place (.file content)) := by
  have hne : place ≠ [] := by
    rintro rfl
    rcases ha with ha | ⟨c, ha⟩ <;> cases ha
  refine ⟨rfl, fun q => ?_⟩
  rw [at?_put t hne]
  by_cases hq : q = place
  · rw [if_pos hq]
    exact .inr (.inr ⟨hq ▸ hf, hq ▸ ha, content, rfl⟩)
  · exact .inl (if_neg hq)

end

/-! ### Files and directories -/

section

variable {t t' : Tree} {p : Path}

theorem kind_directory_iff :
    t.kind p = .ok .directory ↔ ∃ place, t.trail true p = .present place .directory := by
  rw [kind, locate_eq]
  rcases t.trail true p with ⟨place, _ | _ | _⟩ | ⟨place, _ | _⟩ | e <;>
    simp [Trail.destination]

theorem kind_file_iff :
    t.kind p = .ok .file ↔ ∃ place content, t.trail true p = .present place (.file content) := by
  rw [kind, locate_eq]
  rcases t.trail true p with ⟨place, _ | _ | _⟩ | ⟨place, _ | _⟩ | e <;>
    simp [Trail.destination]

/-! ### Writing a file -/

theorem at?_of_trail_file {content : List UInt8} {place : Place}
    (h : t.trail true p = .present place (.file content)) :
    t.at? place = some (.file content) := by
  have hr := trail_resumes (Fills.refl (fun _ => False) (fun _ => False) t) p
  rw [h] at hr
  cases hr
  assumption

/-- What a file holds after it was written: what was written. -/
theorem trail_put_file {place : Place} {content : List UInt8}
    (h : t.trail true p = .missing place [] ∨
      ∃ old, t.trail true p = .present place (.file old))
    (ha : t.at? place = none ∨ ∃ old, t.at? place = some (.file old)) :
    (t.put place (.file content)).trail true p = .present place (.file content) := by
  have hne : place ≠ [] := by
    rintro rfl
    rcases ha with ha | ⟨c, ha⟩ <;> cases ha
  have hput : (t.put place (.file content)).at? place = some (.file content) := by
    rw [at?_put t hne, if_pos rfl]
  have hfills : Fills (fun _ => False) (Eq place) t (t.put place (.file content)) :=
    fills_put_file ha rfl content
  have hr := trail_resumes hfills p
  rcases h with h | ⟨old, h⟩
  · rw [h] at hr
    generalize (t.put place (.file content)).trail true p = τ at hr ⊢
    cases hr with
    | missing dir rest hop hidle hstep => rw [pursue_name hidle hstep, hput]; rfl
  · rw [h] at hr
    generalize (t.put place (.file content)).trail true p = τ at hr ⊢
    cases hr with
    | file _ ha' =>
      rw [hput] at ha'
      cases ha'
      rfl

/-- A file that was written stands at the place that its path is meant for. -/
theorem write_ok {content : List UInt8} (hs : t.Sound) (h : t.write p content = (.ok (), t')) :
    t'.Sound ∧ Fills (above (t.trail true p)) (spot (t.trail true p)) t t' ∧
      ∃ place, (t.trail true p).target? = some place ∧
        t'.trail true p = .present place (.file content) := by
  rw [write, locate_eq] at h
  cases hm : t.trail true p with
  | failed e =>
    rw [hm] at h
    cases h
  | present place entry =>
    rw [hm] at h
    cases entry with
    | directory => cases h
    | link target => cases h
    | file old =>
      have ha := at?_of_trail_file hm
      have hspot : spot (.present place (.file old)) place := rfl
      cases h
      exact ⟨hs.put (hs.nested _ _ ha) (by simp [ha]) _, fills_put_file (.inr ⟨old, ha⟩) hspot _,
        place, hspot, trail_put_file (.inr ⟨old, hm⟩) (.inr ⟨old, ha⟩)⟩
  | missing place rest =>
    rw [hm] at h
    cases rest with
    | cons step rest => cases h
    | nil =>
      have hv := trail_vacant hs hm
      have hspot : spot (.missing place []) place := by
        simp [spot, Trail.target?, denoting]
      cases h
      exact ⟨hs.put hv.parent (by simp [hv.none]) _, fills_put_file (.inl hv.none) hspot _,
        place, hspot, trail_put_file (.inl hm) (.inl hv.none)⟩

theorem write_error {content : List UInt8} {e : OsError}
    (h : t.write p content = (.error e, t')) : t' = t := by
  rw [write] at h
  split at h <;> cases h <;> rfl

theorem sound_write (hs : t.Sound) (p : Path) (content : List UInt8) :
    (t.write p content).2.Sound := by
  rcases hw : t.write p content with ⟨_ | _, t'⟩
  · rw [write_error hw]
    exact hs
  · exact (write_ok hs hw).1

theorem read_of_trail {content : List UInt8} {place : Place}
    (h : t.trail true p = .present place (.file content)) : t.read p = .ok content := by
  rw [read, locate_eq, h]
  rfl

end

/-! ### Creating the directories above a path -/

/-- A path whose steps, separators at the end apart, are the first ones of another path, with steps
that denote something left. -/
def Leads (q p : Path) : Prop :=
  (trimmedPath q).raw.isEmpty = true ∨ ∃ more, steps p = steps (trimmedPath q) ++ more ∧
    denoting more ≠ [] ∧ (trimmedPath q).isAbsolute = p.isAbsolute ∧ p.raw.isEmpty = false

section

variable {t t' : Tree} {p q : Path}

/-- A directory is created at a vacant place. -/
theorem createDirectory_cases (hs : t.Sound) (q : Path) :
    (t.createDirectory q).2 = t ∨ ∃ place, t.trail false (trimmedPath q) = .missing place [] ∧
      t.Vacant place ∧ (t.createDirectory q).2 = t.put place .directory := by
  rw [createDirectory, locate_eq]
  cases hm : t.trail false (trimmedPath q) with
  | failed e => exact .inl rfl
  | present place entry => exact .inl rfl
  | missing place rest =>
    cases rest with
    | cons step rest => exact .inl rfl
    | nil => exact .inr ⟨place, rfl, trail_vacant hs hm, rfl⟩

theorem sound_createDirectory (hs : t.Sound) (q : Path) : (t.createDirectory q).2.Sound := by
  rcases createDirectory_cases hs q with h | ⟨place, -, hv, h⟩
  · rwa [h]
  · rw [h]
    exact hs.put hv.parent (by simp [hv.none]) _

/-- A directory is created only above the place that a path is meant for, if its own path leads to
that path. -/
theorem createDirectory_fills (hs : t.Sound) (hq : Leads q p)
    (hsettled : (t.trail true p).settled = true) :
    Fills (above (t.trail true p)) (fun _ => False) t (t.createDirectory q).2 := by
  rcases createDirectory_cases hs q with h | ⟨place, hm, hv, h⟩
  · rw [h]
    exact .refl _ _ t
  · have hfollow := trail_follow hm
    rcases hq with hempty | ⟨more, hsteps, hmore, habsolute, hp⟩
    · rw [trail, if_pos hempty] at hm
      cases hm
    · have htrail : t.trail true p = .missing place more := by
        rw [trail] at hfollow ⊢
        split at hfollow
        · cases hfollow
        · have hstart : start t.home p = start t.home (trimmedPath q) := by
            rw [start, start, habsolute]
          rw [if_neg (by simp [hp]), hsteps, hstart]
          exact pursueWithin_append _ hfollow
      rw [htrail] at hsettled
      rw [h]
      refine fills_put_directory hv.none ⟨place ++ denoting more, ?_, List.prefix_append _ _, ?_⟩
      · rw [htrail, Trail.target?_missing (of_decide_eq_true hsettled)]
      · simpa using hmore

end

end Tree

end TypeLoom.Files
