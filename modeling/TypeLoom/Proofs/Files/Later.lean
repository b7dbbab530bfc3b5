import TypeLoom.Proofs.Files.Lineage
import TypeLoom.Proofs.Files.Tidy

/-!
# Later trees

As long as nothing is removed from a tree, a path that leads to a file or a directory leads there
ever after. Main statements: a directory that was created is not created again, a file that holds
already what is written to it stays as it is, and a file is kept by all that is written to files that
other paths lead to.
-/

namespace TypeLoom.Files.Tree

open TypeLoom.Path (denoting)

/-- A tree and a later one: directories and links stay, and files may get new content. -/
def Later (t t' : Tree) : Prop := Fills (fun _ => True) (fun _ => True) t t'

namespace Later

variable {t t' t'' : Tree} {p : Path}

theorem refl (t : Tree) : Later t t := Fills.refl _ _ t

theorem trans (h : Later t t') (h' : Later t' t'') : Later t t'' := Fills.trans h h'

theorem of_fills {dirs files : Place → Prop} (h : Fills dirs files t t') : Later t t' :=
  h.mono (fun _ _ => trivial) fun _ _ => trivial

theorem file_trail (h : Later t t') {place : Place} {content : List UInt8}
    (hp : t.trail true p = .present place (.file content)) :
    ∃ content', t'.trail true p = .present place (.file content') := by
  have hr := trail_resumes h p
  rw [hp] at hr
  generalize t'.trail true p = τ at hr
  cases hr with
  | file _ _ => exact ⟨_, rfl⟩

theorem directory_trail (h : Later t t') {place : Place}
    (hp : t.trail true p = .present place .directory) :
    t'.trail true p = .present place .directory := by
  have hr := trail_resumes h p
  rw [hp] at hr
  generalize t'.trail true p = τ at hr
  cases hr with
  | directory _ => rfl

end Later

section

variable {t t' : Tree} {p : Path}

theorem Later.kind_directory (h : Later t t') (hp : t.kind p = .ok .directory) :
    t'.kind p = .ok .directory := by
  obtain ⟨place, hplace⟩ := kind_directory_iff.mp hp
  exact kind_directory_iff.mpr ⟨place, h.directory_trail hplace⟩

theorem Later.kind_file (h : Later t t') (hp : t.kind p = .ok .file) : t'.kind p = .ok .file := by
  obtain ⟨place, content, hplace⟩ := kind_file_iff.mp hp
  obtain ⟨content', hplace'⟩ := h.file_trail hplace
  exact kind_file_iff.mpr ⟨place, content', hplace'⟩

end

/-! ### Trees that are the same -/

/-- Trees in which the same stands at all places. -/
structure Same (t t' : Tree) : Prop where
  home : t'.home = t.home
  entries : ∀ q, t'.at? q = t.at? q

namespace Same

variable {t t' t'' : Tree} {p : Path}

theorem refl (t : Tree) : Same t t := ⟨rfl, fun _ => rfl⟩

theorem trans (h : Same t t') (h' : Same t' t'') : Same t t'' :=
  ⟨h'.home.trans h.home, fun q => (h'.entries q).trans (h.entries q)⟩

theorem pursueWithin_eq (h : Same t t') (follow : Bool) (n : Nat) (dir : Place)
    (steps : List String) :
    t'.pursueWithin follow n dir steps = t.pursueWithin follow n dir steps := by
  induction n generalizing dir steps with
  | zero => rfl
  | succ n ih =>
    have hhop : t'.pursueWithin follow n = t.pursueWithin follow n := by
      funext dir steps
      exact ih dir steps
    rw [pursueWithin, pursueWithin, hhop]
    induction steps generalizing dir with
    | nil => rfl
    | cons step rest ihs => simp only [pursue, ihs, h.entries]

theorem trail_eq (h : Same t t') (follow : Bool) (p : Path) :
    t'.trail follow p = t.trail follow p := by
  unfold trail
  rw [h.home, h.pursueWithin_eq]

theorem kept (h : Same t t') (p : Path) : Kept t t' p := kept_of_trail_eq (h.trail_eq true p)

theorem later (h : Same t t') : Later t t' := ⟨h.home, fun q => .inl (h.entries q)⟩

end Same

/-! ### Directories that are created once -/

section

variable {t t' : Tree} {q : Path}

/-- A path is trimmed by dropping the separators at its end. -/
theorem raw_eq_trimmedPath (q : Path) :
    ∃ n, q.raw.toList = (trimmedPath q).raw.toList ++ List.replicate n '/' := by
  obtain ⟨n, hn⟩ : ∃ n, q.raw.toList.reverse.takeWhile (· == '/') = List.replicate n '/' := by
    refine ⟨_, List.eq_replicate_of_mem fun c hc => ?_⟩
    have hslash := List.mem_takeWhile_imp (p := fun c : Char => c == '/') hc
    exact beq_iff_eq.mp hslash
  have hsplit := congrArg List.reverse
    (List.takeWhile_append_dropWhile (p := (· == '/')) (l := q.raw.toList.reverse))
  rw [List.reverse_append, hn, List.reverse_replicate, List.reverse_reverse] at hsplit
  refine ⟨n, ?_⟩
  rw [trimmedPath, String.toList_ofList]
  exact hsplit.symm

/-- The separators at the end of a path add steps that denote nothing. -/
theorem steps_trimmedPath (q : Path) :
    ∃ more, steps q = steps (trimmedPath q) ++ more ∧ denoting more = [] := by
  have hslashes : ∀ (cs : List Char) (n : Nat),
      (Text.splitAt (· == '/') (cs ++ List.replicate n '/')).map String.ofList =
        (Text.splitAt (· == '/') cs).map String.ofList ++ List.replicate n "" := by
    intro cs n
    induction n with
    | zero => simp
    | succ n ih =>
      rw [List.replicate_succ', List.replicate_succ', ← List.append_assoc,
        Text.splitAt_concat (by simp), List.map_append, ih, List.append_assoc]
      rfl
  obtain ⟨n, hcut⟩ := raw_eq_trimmedPath q
  refine ⟨List.replicate n "", ?_, ?_⟩
  · rw [steps, hcut, hslashes]
    rfl
  · rw [denoting, List.filter_eq_nil_iff]
    intro step hstep
    rw [List.eq_of_mem_replicate hstep]
    decide

theorem isAbsolute_trimmedPath (h : (trimmedPath q).raw.isEmpty = false) :
    (trimmedPath q).isAbsolute = q.isAbsolute := by
  obtain ⟨n, hcut⟩ := raw_eq_trimmedPath q
  have hne : (trimmedPath q).raw.toList ≠ [] := by
    intro hnil
    rw [String.toList_eq_nil_iff.mp hnil] at h
    cases h
  rw [Path.isAbsolute, Path.isAbsolute, hcut, List.head?_append_of_ne_nil _ hne]

/-- Where nothing stands, separators at the end of a path do not matter. -/
theorem trail_of_trimmedPath {place : Place} {rest : List String}
    (h : t.trail false (trimmedPath q) = .missing place rest) :
    ∃ more, t.trail true q = .missing place (rest ++ more) ∧ denoting more = [] := by
  have hfollow := trail_follow h
  obtain ⟨more, hsteps, hmore⟩ := steps_trimmedPath q
  refine ⟨more, ?_, hmore⟩
  unfold trail at hfollow
  split at hfollow
  · cases hfollow
  · rename_i hne
    have habsolute := isAbsolute_trimmedPath ((Bool.not_eq_true _).mp hne)
    have hq : q.raw.isEmpty = false := by
      cases hempty : q.raw.isEmpty with
      | false => rfl
      | true =>
        rw [trimmedPath, String.isEmpty_iff.mp hempty] at hne
        exact absurd rfl hne
    have hstart : start t.home q = start t.home (trimmedPath q) := by
      rw [start, start, habsolute]
    rw [trail, if_neg (by simp [hq]), hsteps, hstart]
    exact pursueWithin_append _ hfollow

/-- A directory is not created where a path leads to one. -/
theorem createDirectory_of_directory (h : t.kind q = .ok .directory) :
    ∃ e, t.createDirectory q = (.error e, t) := by
  rw [createDirectory, locate_eq]
  cases hm : t.trail false (trimmedPath q) with
  | failed e => exact ⟨e, rfl⟩
  | present place entry => exact ⟨.alreadyExists, rfl⟩
  | missing place rest =>
    obtain ⟨more, htrail, -⟩ := trail_of_trimmedPath hm
    obtain ⟨place', hplace⟩ := kind_directory_iff.mp h
    rw [htrail] at hplace
    cases hplace

theorem pursue_idles {follow : Bool} {hop : Place → List String → Trail} {dir : Place}
    {steps : List String} (h : denoting steps = []) :
    t.pursue follow hop dir steps = .present dir .directory := by
  induction steps with
  | nil => rfl
  | cons step rest ih =>
    have hall := List.filter_eq_nil_iff.mp h
    have hidle : Path.isIdle step = true := by simpa using hall step List.mem_cons_self
    rw [pursue_idle hidle]
    exact ih (List.filter_eq_nil_iff.mpr fun s hs => hall s (List.mem_cons_of_mem _ hs))

/-- A path leads to the directory that was created for it. -/
theorem trail_of_createDirectory (hs : t.Sound) (h : t.createDirectory q = (.ok (), t')) :
    ∃ place, t' = t.put place .directory ∧ t.Vacant place ∧
      t'.trail true q = .present place .directory := by
  rw [createDirectory, locate_eq] at h
  cases hm : t.trail false (trimmedPath q) with
  | failed e =>
    rw [hm] at h
    cases h
  | present place entry =>
    rw [hm] at h
    cases h
  | missing place rest =>
    rw [hm] at h
    cases rest with
    | cons step rest => cases h
    | nil =>
      have hvacant := trail_vacant hs hm
      obtain ⟨more, htrail, hmore⟩ := trail_of_trimmedPath hm
      have hput : (t.put place .directory).at? place = some .directory := by
        rw [at?_put t (fun hnil => by rw [hnil] at hvacant; cases hvacant.none), if_pos rfl]
      have hfills : Fills (fun _ => True) (fun _ => True) t (t.put place .directory) :=
        fills_put_directory hvacant.none trivial
      have hr := trail_resumes hfills q
      rw [htrail, List.nil_append] at hr
      cases h
      refine ⟨place, rfl, hvacant, ?_⟩
      generalize (t.put place .directory).trail true q = τ at hr ⊢
      cases hr with
      | missing dir rest hop hidle hstep =>
        rw [pursue_name hidle hstep, hput]
        exact pursue_idles hmore

theorem kind_of_createDirectory (hs : t.Sound) (h : t.createDirectory q = (.ok (), t')) :
    t'.kind q = .ok .directory := by
  obtain ⟨place, -, -, hplace⟩ := trail_of_createDirectory hs h
  exact kind_directory_iff.mpr ⟨place, hplace⟩

theorem answer_isDirectory (q : Path) (t : Tree) :
    answer (isDirectory q : StateM Tree Bool) t = decide (t.kind q = .ok .directory) := by
  rw [isDirectory, hasKind, answer_bind, answer_kind]
  cases t.kind q with
  | error e => simp
  | ok k => cases k <;> simp

theorem ensureDirectory_eq (q : Path) (t : Tree) :
    answer (ensureDirectory q : StateM Tree _) t =
      match (t.createDirectory q).1 with
      | .ok () => .ok ()
      | .error e => if (t.createDirectory q).2.kind q = .ok .directory then .ok () else .error e := by
  rw [ensureDirectory, answer_bind]
  have hcreate : answer (FileAccess.createDirectory q : StateM Tree _) t =
    (t.createDirectory q).1 := rfl
  rw [hcreate, worldAfter_createDirectory]
  cases (t.createDirectory q).1 with
  | ok => rfl
  | error e =>
    dsimp only
    rw [answer_bind, answer_isDirectory, isDirectory, worldAfter_hasKind]
    by_cases h : (t.createDirectory q).2.kind q = .ok .directory <;> simp [h]

theorem kind_of_ensureDirectory (hs : t.Sound)
    (h : answer (ensureDirectory q : StateM Tree _) t = .ok ()) :
    (worldAfter (ensureDirectory q : StateM Tree _) t).kind q = .ok .directory := by
  rw [ensureDirectory_eq] at h
  rw [worldAfter_ensureDirectory]
  rcases hcreate : t.createDirectory q with ⟨e | _, t'⟩
  · rw [hcreate] at h
    dsimp only at h
    split at h
    · assumption
    · cases h
  · exact kind_of_createDirectory hs hcreate

theorem ensureDirectory_of_directory (h : t.kind q = .ok .directory) :
    answer (ensureDirectory q : StateM Tree _) t = .ok () ∧
      worldAfter (ensureDirectory q : StateM Tree _) t = t := by
  obtain ⟨e, he⟩ := createDirectory_of_directory h
  rw [ensureDirectory_eq, worldAfter_ensureDirectory, he]
  exact ⟨if_pos h, rfl⟩

end

/-! ### Files that are written -/

/-- The places of the files that paths lead to. -/
def led (t : Tree) (qs : List Path) (place : Place) : Prop :=
  ∃ q ∈ qs, ∃ content, t.trail true q = .present place (.file content)

/-- A stretch in which directories are created and files are written, those that the paths `qs` lead
to in the tree `T` at the end. -/
structure Writes (T : Tree) (qs : List Path) (t t' : Tree) : Prop where
  sound : t'.Sound
  fills : Fills (fun _ => True) (led T qs) t t'
  tidy : t.Tidy → t'.Tidy

namespace Writes

variable {T t t' t'' : Tree} {qs rs : List Path} {p : Path}

theorem refl (hs : t.Sound) (T : Tree) (qs : List Path) : Writes T qs t t :=
  ⟨hs, Fills.refl _ _ t, id⟩

theorem mono (h : Writes T qs t t') (hsub : ∀ q ∈ qs, q ∈ rs) : Writes T rs t t' :=
  ⟨h.sound, h.fills.mono (fun _ h => h) fun _ ⟨q, hq, hled⟩ => ⟨q, hsub q hq, hled⟩, h.tidy⟩

theorem trans (h : Writes T qs t t') (h' : Writes T rs t' t'') : Writes T (qs ++ rs) t t'' := by
  have hfirst := h.mono fun q hq => List.mem_append_left rs hq
  have hsecond := h'.mono fun q hq => List.mem_append_right qs hq
  exact ⟨h'.sound, hfirst.fills.trans hsecond.fills, h'.tidy ∘ h.tidy⟩

theorem later (h : Writes T qs t t') : Later t t' := .of_fills h.fills

/-- A file is kept if its place is not written. -/
theorem kept_of_free (h : Writes T qs t T) {place : Place} {content : List UInt8}
    (hp : t.trail true p = .present place (.file content)) (hfree : ¬led T qs place) :
    T.trail true p = t.trail true p := by
  obtain ⟨content', hp'⟩ := h.later.file_trail hp
  obtain ⟨content'', hc, hsame⟩ := h.fills.file (at?_of_trail_file hp)
  rw [at?_of_trail_file hp'] at hc
  cases hc
  rw [hp, hp', hsame hfree]

/-- A file is kept by what is written to other places. -/
theorem kept (h : Writes T qs t T) {place : Place} {content : List UInt8}
    (hp : t.trail true p = .present place (.file content))
    (hapart : ∀ q ∈ qs, T.canonical q ≠ T.canonical p) : T.trail true p = t.trail true p := by
  refine h.kept_of_free hp ?_
  obtain ⟨content', hp'⟩ := h.later.file_trail hp
  rintro ⟨q, hq, content'', hled⟩
  refine hapart q hq ?_
  rw [canonical, canonical, locate_eq, locate_eq, hled, hp']
  rfl

end Writes

section

variable {T t : Tree}

theorem writes_createDirectory (hs : t.Sound) (T : Tree) (q : Path) :
    Writes T [] t (t.createDirectory q).2 := by
  refine ⟨sound_createDirectory hs q, ?_, fun ht => ht.createDirectory q⟩
  rcases createDirectory_cases hs q with h | ⟨place, -, hvacant, h⟩
  · rw [h]
    exact Fills.refl _ _ t
  · rw [h]
    exact fills_put_directory hvacant.none trivial

/-- What was written stands at the end of its path. -/
theorem trail_of_write {p : Path} {content : List UInt8} (hs : t.Sound)
    (h : (t.write p content).1 = .ok ()) :
    ∃ place, (t.write p content).2.trail true p = .present place (.file content) := by
  obtain ⟨-, -, place, -, htrail⟩ :=
    write_ok hs (show t.write p content = (.ok (), (t.write p content).2) from Prod.ext h rfl)
  exact ⟨place, htrail⟩

theorem writes_write (hs : t.Sound) (p : Path) (content : List UInt8)
    (hT : Later (t.write p content).2 T) : Writes T [p] t (t.write p content).2 := by
  rcases hw : t.write p content with ⟨e | _, t'⟩
  · rw [write_error hw]
    exact .refl hs T [p]
  · rw [hw] at hT
    obtain ⟨hsound, hfills, place, htarget, htrail⟩ := write_ok hs hw
    refine ⟨hsound, hfills.mono (fun _ _ => trivial) fun q hq => ?_,
      fun ht => hw ▸ ht.write p content⟩
    -- The place that is written is the one that the path leads to from then on.
    obtain rfl : place = q := Option.some.inj (htarget.symm.trans hq)
    obtain ⟨content', hled⟩ := hT.file_trail htrail
    exact ⟨p, List.mem_singleton_self p, content', hled⟩

/-- Writing what a file holds already changes nothing. -/
theorem write_same {p : Path} {place : Place} {content : List UInt8}
    (h : t.trail true p = .present place (.file content)) :
    (t.write p content).1 = .ok () ∧ Same t (t.write p content).2 := by
  have hplace := at?_of_trail_file h
  have hne : place ≠ [] := by
    rintro rfl
    cases hplace
  rw [write, locate_eq, h]
  refine ⟨rfl, rfl, fun q => ?_⟩
  show (t.put place (.file content)).at? q = t.at? q
  rw [at?_put t hne]
  split
  · rename_i hq
    rw [hq, hplace]
  · rfl

end

end TypeLoom.Files.Tree
