import TypeLoom.Proofs.Files.Later

/-!
# Trees that are furnished

Before a schema is read, nothing happens to a tree but that directories are created. Main statements:
a path that leads to something in two trees that were furnished from the same one leads to the same
in both, and what is new in a directory are directories in which nothing stands that is not new.
-/

namespace TypeLoom

namespace Files.Tree

open TypeLoom.Path (denoting)

section

variable {t : Tree} {p : Path}

theorem directory_of_names {ns : List String} (h : t.names p = .ok ns) :
    ∃ place, t.trail true p = .present place .directory ∧ ns = t.namesIn place := by
  rw [names, locate_eq] at h
  rcases htrail : t.trail true p with ⟨place, _ | _ | _⟩ | ⟨place, _ | _⟩ | e <;> rw [htrail] at h <;>
    cases h
  exact ⟨place, rfl, rfl⟩

theorem present_of_kind {k : Kind} (h : t.kind p = .ok k) :
    ∃ place e, t.trail true p = .present place e := by
  rw [kind, locate_eq] at h
  rcases htrail : t.trail true p with ⟨place, e⟩ | ⟨place, _ | _⟩ | e
  · exact ⟨place, e, rfl⟩
  all_goals
    rw [htrail] at h
    cases h

/-- Links are followed, so what a path leads to is a file or a directory. -/
theorem kind_cases {k : Kind} (h : t.kind p = .ok k) :
    t.kind p = .ok .file ∨ t.kind p = .ok .directory := by
  obtain ⟨place, e, hp⟩ := present_of_kind h
  have hr := trail_resumes (Fills.refl (fun _ => False) (fun _ => False) t) p
  rw [hp] at hr
  cases hr with
  | directory => exact .inr (kind_directory_iff.mpr ⟨_, hp⟩)
  | file => exact .inl (kind_file_iff.mpr ⟨_, _, hp⟩)

theorem canonical_of_present {place : Place} {e : Entry} (h : t.trail true p = .present place e) :
    t.canonical p = .ok ⟨"/" ++ "/".intercalate place⟩ := by
  rw [canonical, locate_eq, h]
  rfl

end

/-! ### Paths into a directory -/

/-- The steps to a name in a directory are those to the directory, separators at their end apart. -/
theorem steps_join {dir : Path} {name : String} (hdir : dir.raw.isEmpty = false)
    (hname : Proper name) :
    ∃ initial more, steps dir = initial ++ more ∧ denoting more = [] ∧
      steps (dir.join ⟨name⟩) = initial ++ [name] ∧
      (dir.join ⟨name⟩).isAbsolute = dir.isAbsolute ∧ (dir.join ⟨name⟩).raw.isEmpty = false := by
  have hrelative : Path.isAbsolute ⟨name⟩ = false := by
    rw [Path.isAbsolute, beq_eq_false_iff_ne]
    exact fun h => hname.step (List.mem_of_head? h)
  have hpiece : Text.splitAt (· == '/') name.toList = [name.toList] :=
    Text.splitAt_eq_singleton fun c hc => by
      rw [beq_eq_false_iff_ne]
      rintro rfl
      exact hname.step hc
  have hne : dir.raw.toList ≠ [] := fun h => by
    rw [String.toList_eq_nil_iff.mp h] at hdir
    cases hdir
  have hcut (cs : List Char) :
      (Text.splitAt (· == '/') (cs ++ '/' :: name.toList)).map String.ofList =
        (Text.splitAt (· == '/') cs).map String.ofList ++ [name] := by
    rw [Text.splitAt_append_cons (by simp), hpiece, List.map_append, List.map_singleton,
      String.ofList_toList]
  have hraw {text : String} (h : text.toList = dir.raw.toList ++ name.toList ∨
      text.toList = dir.raw.toList ++ '/' :: name.toList) :
      Path.isAbsolute ⟨text⟩ = dir.isAbsolute ∧ text.isEmpty = false := by
    constructor
    · rcases h with h | h <;>
        rw [Path.isAbsolute, Path.isAbsolute, h, List.head?_append_of_ne_nil _ hne]
    · cases hempty : text.isEmpty with
      | false => rfl
      | true =>
        rw [String.isEmpty_iff.mp hempty] at h
        rcases h with h | h <;> exact absurd (List.append_eq_nil_iff.mp h.symm).1 hne
  unfold Path.join
  rw [hrelative, hdir, if_neg Bool.false_ne_true, Bool.false_or]
  by_cases hlast : dir.raw.toList.getLast? = some '/'
  · obtain ⟨cs, hcs⟩ := List.getLast?_eq_some_iff.mp hlast
    have hjoined : (dir.raw ++ name).toList = dir.raw.toList ++ name.toList := String.toList_append
    rw [if_pos (by simp [hlast])]
    refine ⟨(Text.splitAt (· == '/') cs).map String.ofList, [""], ?_, rfl, ?_, hraw (.inl hjoined)⟩
    · rw [steps, hcs, Text.splitAt_concat (by simp), List.map_append]
      rfl
    · rw [steps, hjoined, hcs, List.append_assoc]
      exact hcut cs
  · have hjoined : (dir.raw ++ "/" ++ name).toList = dir.raw.toList ++ '/' :: name.toList := by
      simp [String.toList_append]
    rw [if_neg (by simpa using hlast)]
    refine ⟨steps dir, [], (List.append_nil _).symm, rfl, ?_, hraw (.inr hjoined)⟩
    rw [steps, hjoined]
    exact hcut dir.raw.toList

theorem pursue_into {t : Tree} {hop : Place → List String → Trail} {place : Place} {name : String}
    {more : List String} (hname : Proper name) (hmore : denoting more = []) {e : Entry}
    (hat : t.at? (place ++ [name]) = some e) (he : ∀ target, e ≠ .link target)
    (hhop : ∀ dir steps, hop dir (steps ++ more) = .present place .directory →
      hop dir (steps ++ [name]) = .present (place ++ [name]) e)
    {dir : Place} {steps : List String}
    (hp : t.pursue true hop dir (steps ++ more) = .present place .directory) :
    t.pursue true hop dir (steps ++ [name]) = .present (place ++ [name]) e := by
  induction steps generalizing dir with
  | nil =>
    rw [List.nil_append, pursue_idles hmore] at hp
    cases hp
    rw [List.nil_append, pursue_name hname.active hname.down, hat]
    cases e with
    | directory => rfl
    | file content => rfl
    | link target => exact absurd rfl (he target)
  | cons step steps ih =>
    rw [List.cons_append] at hp ⊢
    cases hidle : Path.isIdle step with
    | true =>
      rw [pursue_idle hidle] at hp ⊢
      exact ih hp
    | false =>
      by_cases hup : step = ".."
      · rw [pursue_up hidle hup] at hp ⊢
        exact ih hp
      · rw [pursue_name hidle hup] at hp ⊢
        cases ha : t.at? (dir ++ [step]) with
        | none =>
          rw [ha] at hp
          cases hp
        | some entry =>
          rw [ha] at hp
          cases entry with
          | directory => exact ih hp
          | file content =>
            dsimp only at hp
            split at hp <;> cases hp
          | link target =>
            simp only [Bool.not_true, Bool.and_false, Bool.false_eq_true, if_false] at hp ⊢
            rw [← List.append_assoc] at hp ⊢
            exact hhop _ _ hp

/-- The path to a file or a directory that stands in a directory. -/
theorem trail_join {t : Tree} {dir : Path} {place : Place} {name : String}
    (hdir : t.trail true dir = .present place .directory) (hname : Proper name) {e : Entry}
    (hat : t.at? (place ++ [name]) = some e) (he : ∀ target, e ≠ .link target) :
    t.trail true (dir.join ⟨name⟩) = .present (place ++ [name]) e := by
  have hwithin : ∀ n {more : List String} {dir : Place} {steps : List String}, denoting more = [] →
      t.pursueWithin true n dir (steps ++ more) = .present place .directory →
      t.pursueWithin true n dir (steps ++ [name]) = .present (place ++ [name]) e := by
    intro n
    induction n with
    | zero => intro _ _ _ _ hp; cases hp
    | succ n ih =>
      exact fun hmore hp => pursue_into hname hmore hat he (fun dir steps => ih hmore) hp
  unfold trail at hdir ⊢
  split at hdir
  · cases hdir
  · rename_i hempty
    obtain ⟨initial, more, hsteps, hmore, hjoin, habsolute, hne⟩ :=
      steps_join ((Bool.not_eq_true _).mp hempty) hname
    have hstart : start t.home (dir.join ⟨name⟩) = start t.home dir := by
      rw [start, start, habsolute]
    rw [if_neg (by simp [hne]), hjoin, hstart]
    rw [hsteps] at hdir
    exact hwithin _ hmore hdir

/-! ### Furnishing -/

/-- What paths lead to stays while only directories are created. -/
theorem Fills.trail_present {dirs : Place → Prop} {t t' : Tree}
    (h : Fills dirs (fun _ => False) t t') {p : Path} {place : Place} {e : Entry}
    (hp : t.trail true p = .present place e) : t'.trail true p = .present place e := by
  have hr := trail_resumes h p
  rw [hp] at hr
  generalize t'.trail true p = τ at hr ⊢
  cases hr with
  | directory => rfl
  | file ha ha' =>
    obtain ⟨content, hc, hsame⟩ := h.file ha
    rw [ha'] at hc
    cases hc
    rw [hsame not_false]

/-- A tree to which directories were added at places where nothing stood. -/
structure Furnished (t t' : Tree) : Prop where
  home : t'.home = t.home
  added : ∃ places : List Place, t'.entries = places.map (·, Entry.directory) ++ t.entries ∧
    ∀ place ∈ places, t.at? place = none ∧ ∃ dir name, place = dir ++ [name] ∧ Proper name

theorem lookup_directories (places : List Place) (q : Place) :
    (places.map (·, Entry.directory)).lookup q = if q ∈ places then some .directory else none := by
  induction places with
  | nil => rfl
  | cons place places ih =>
    rw [List.map_cons, List.lookup_cons, ih]
    by_cases hq : q = place
    · simp [hq]
    · simp [hq, beq_false_of_ne hq]

theorem at?_of_entries {t t' : Tree} {places : List Place}
    (h : t'.entries = places.map (·, Entry.directory) ++ t.entries) (q : Place) :
    t'.at? q = if q ∈ places then some .directory else t.at? q := by
  unfold at?
  by_cases hnil : q = []
  · simp [hnil]
  · have hempty : q.isEmpty = false := by simpa using hnil
    rw [hempty, if_neg Bool.false_ne_true, if_neg Bool.false_ne_true, h, List.lookup_append,
      lookup_directories]
    split <;> simp

/-- What is new in a directory, with `files` as the places where files may be written. -/
structure Fresh (files : Place → Prop) (t t' : Tree) (dir : Place) (name : String) : Prop where
  proper : Proper name
  none : t.at? (dir ++ [name]) = none
  stands : t'.at? (dir ++ [name]) = some .directory ∨
    files (dir ++ [name]) ∧ ∃ content, t'.at? (dir ++ [name]) = some (.file content)

/-- A tree in whose directories new names came to those that were there. -/
def Grown (files : Place → Prop) (t t' : Tree) : Prop :=
  ∀ dir, ∃ new, (t'.namesIn dir).Perm (new ++ t.namesIn dir) ∧ ∀ name ∈ new, Fresh files t t' dir name

theorem grown_refl (files : Place → Prop) (t : Tree) : Grown files t t :=
  fun _ => ⟨[], .refl _, nofun⟩

/-- The names in a tidy tree in which files were written. -/
theorem Writes.grown {T t t' : Tree} {qs : List Path} (h : Writes T qs t t') (ht : t.Tidy) :
    Grown (led T qs) t t' := by
  intro dir
  have hnodup := (h.tidy ht).namesIn_nodup dir
  have hold : ((t'.namesIn dir).filter (decide <| · ∈ t.namesIn dir)).Perm (t.namesIn dir) := by
    refine (List.perm_ext_iff_of_nodup (hnodup.filter _) (ht.namesIn_nodup dir)).mpr fun name => ?_
    rw [List.mem_filter, decide_eq_true_eq, and_iff_right_iff_imp]
    intro hname
    obtain ⟨e, he⟩ := Option.ne_none_iff_exists'.mp (at?_ne_none_of_mem_namesIn hname)
    cases e with
    | directory => exact mem_namesIn_of_at? (h.fills.directory he)
    | link target => exact mem_namesIn_of_at? (h.fills.link he)
    | file content =>
      obtain ⟨content', he', -⟩ := h.fills.file he
      exact mem_namesIn_of_at? he'
  refine ⟨(t'.namesIn dir).filter fun name => !decide (name ∈ t.namesIn dir), ?_, fun name hname => ?_⟩
  · exact (List.filter_append_perm _ _).symm.trans
      (List.perm_append_comm.trans (hold.append_left _))
  · obtain ⟨hmem, hnew⟩ := List.mem_filter.mp hname
    have hnone : t.at? (dir ++ [name]) = none := by
      by_contra hsome
      obtain ⟨e, he⟩ := Option.ne_none_iff_exists'.mp hsome
      simp [mem_namesIn_of_at? he] at hnew
    refine ⟨(h.tidy ht).proper_of_mem_namesIn hmem, hnone, ?_⟩
    rcases h.fills.entries (dir ++ [name]) with hsame | ⟨-, -, hdirectory⟩ | ⟨hfile, -, hcontent⟩
    · exact absurd (hsame.trans hnone) (at?_ne_none_of_mem_namesIn hmem)
    · exact .inl hdirectory
    · exact .inr ⟨hfile, hcontent⟩

namespace Furnished

variable {t t' t'' t₁ t₂ : Tree} {p : Path}

theorem refl (t : Tree) : Furnished t t := ⟨rfl, [], rfl, nofun⟩

theorem trans (h : Furnished t t') (h' : Furnished t' t'') : Furnished t t'' := by
  obtain ⟨places, hentries, hnew⟩ := h.added
  obtain ⟨more, hentries', hnew'⟩ := h'.added
  refine ⟨h'.home.trans h.home, more ++ places, ?_, List.forall_mem_append.mpr ⟨?_, hnew⟩⟩
  · rw [hentries', hentries, List.map_append, List.append_assoc]
  · intro place hplace
    obtain ⟨hnone, hname⟩ := hnew' place hplace
    rw [at?_of_entries hentries] at hnone
    split at hnone
    · cases hnone
    · exact ⟨hnone, hname⟩

theorem fills (h : Furnished t t') : Fills (fun _ => True) (fun _ => False) t t' := by
  obtain ⟨places, hentries, hnew⟩ := h.added
  refine ⟨h.home, fun q => ?_⟩
  rw [at?_of_entries hentries]
  split
  · rename_i hq
    exact .inr (.inl ⟨trivial, (hnew q hq).1, rfl⟩)
  · exact .inl rfl

theorem later (h : Furnished t t') : Later t t' := .of_fills h.fills

/-- Trees that were furnished from one can be furnished to one. -/
theorem exists_fills (h₁ : Furnished t t₁) (h₂ : Furnished t t₂) :
    ∃ T, Fills (fun _ => True) (fun _ => False) t₁ T ∧
      Fills (fun _ => True) (fun _ => False) t₂ T := by
  obtain ⟨places, hentries, hnew⟩ := h₁.added
  obtain ⟨more, hentries', hnew'⟩ := h₂.added
  let T : Tree := ⟨t.home, places.map (·, Entry.directory) ++ t₂.entries⟩
  have hT (q : Place) : T.at? q = if q ∈ places then some .directory else t₂.at? q :=
    at?_of_entries rfl q
  refine ⟨T, ⟨h₁.home.symm, fun q => ?_⟩, ⟨h₂.home.symm, fun q => ?_⟩⟩
  · rw [hT, at?_of_entries hentries, at?_of_entries hentries']
    by_cases hq : q ∈ places
    · exact .inl (by rw [if_pos hq, if_pos hq])
    · rw [if_neg hq, if_neg hq]
      by_cases hq' : q ∈ more
      · exact .inr (.inl ⟨trivial, (hnew' q hq').1, if_pos hq'⟩)
      · exact .inl (if_neg hq')
  · rw [hT]
    by_cases hq : q ∈ places
    · rw [if_pos hq, at?_of_entries hentries', (hnew q hq).1]
      by_cases hq' : q ∈ more
      · exact .inl (by rw [if_pos hq'])
      · exact .inr (.inl ⟨trivial, if_neg hq', rfl⟩)
    · exact .inl (if_neg hq)

/-- A path that leads to something in two trees that were furnished from one leads to the same. -/
theorem trail_eq (h₁ : Furnished t t₁) (h₂ : Furnished t t₂) {k₁ k₂ : Kind} (hk₁ : t₁.kind p = .ok k₁)
    (hk₂ : t₂.kind p = .ok k₂) : t₂.trail true p = t₁.trail true p := by
  obtain ⟨T, hT₁, hT₂⟩ := h₁.exists_fills h₂
  obtain ⟨place, e, hp₁⟩ := present_of_kind hk₁
  obtain ⟨place', e', hp₂⟩ := present_of_kind hk₂
  rw [hp₁, hp₂]
  exact (hT₂.trail_present hp₂).symm.trans (hT₁.trail_present hp₁)

theorem grown (h : Furnished t t') : Grown (fun _ => False) t t' := by
  obtain ⟨places, hentries, hnew⟩ := h.added
  refine fun dir => ⟨namesIn ⟨t.home, places.map (·, Entry.directory)⟩ dir, ?_, fun name hname => ?_⟩
  · unfold namesIn
    rw [hentries, List.filterMap_append]
  · obtain ⟨e, he⟩ := mem_namesIn.mp hname
    obtain ⟨place, hplace, heq⟩ := List.mem_map.mp he
    obtain rfl : place = dir ++ [name] := congrArg Prod.fst heq
    obtain ⟨hnone, dir', name', hsplit, hproper⟩ := hnew _ hplace
    obtain rfl := List.singleton_inj.mp (List.append_inj' hsplit rfl).2
    exact ⟨hproper, hnone, .inl (by rw [at?_of_entries hentries, if_pos hplace])⟩

end Furnished

theorem furnished_createDirectory {t : Tree} (hs : t.Sound) (q : Path) :
    Furnished t (t.createDirectory q).2 := by
  rcases createDirectory_cases hs q with h | ⟨place, hm, hvacant, h⟩
  · rw [h]
    exact .refl t
  · rw [h]
    refine ⟨rfl, [place], ?_, fun place' hplace' => ?_⟩
    · have hall : t.entries.filter (·.1 != place) = t.entries :=
        List.filter_eq_self.mpr fun x hx => bne_iff_ne.mpr ((at?_eq_none hvacant.none).2 x hx)
      rw [put, hall]
      rfl
    · obtain rfl := List.mem_singleton.mp hplace'
      exact ⟨hvacant.none, trail_proper hm⟩

theorem furnished_createLineage {t : Tree} (hs : t.Sound) (ps : List Path) :
    Furnished t (worldAfter (createLineage ps : StateM Tree _) t) :=
  (createLineage_induction (I := fun t' => t'.Sound ∧ Furnished t t')
    (fun p _ _ h => ⟨sound_createDirectory h.1 p, h.2.trans (furnished_createDirectory h.1 p)⟩)
    ⟨hs, .refl t⟩).2

end Files.Tree

end TypeLoom
