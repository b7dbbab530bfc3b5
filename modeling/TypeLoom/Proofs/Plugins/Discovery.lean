import TypeLoom.Proofs.Files.Furnished
import TypeLoom.Proofs.Pipeline.Alike
import TypeLoom.Proofs.Plugins.Soundness
import TypeLoom.Proofs.Sorting

/-!
# Schemas in furnished trees

A schema is searched for and read by operations of the file system, each of which may fail. Main
statement: in two trees that were furnished from one, in which the schema stood, the same schema is
loaded or loading fails for the same reason, unless an operation of the file system fails in one of
them.
-/

namespace TypeLoom.Plugins

open Files Files.Tree Pipeline

section

variable {α β ε : Type}

/-- Items that give nothing may be dropped. -/
theorem flatMap_filter_of_nil {f : α → List β} {p : α → Bool} {as : List α}
    (h : ∀ a ∈ as, p a = false → f a = []) : (as.filter p).flatMap f = as.flatMap f := by
  induction as with
  | nil => rfl
  | cons a as ih =>
    obtain ⟨ha, has⟩ := List.forall_mem_cons.mp h
    rw [List.flatMap_cons]
    cases hp : p a with
    | true => rw [List.filter_cons_of_pos hp, List.flatMap_cons, ih has]
    | false => rw [List.filter_cons_of_neg (by simp [hp]), ha hp, List.nil_append, ih has]

/-- What items are taken to one by one, if none of them fails. -/
theorem mapM_eq_ok {f : α → Except ε (List β)} {as : List α} {bss : List (List β)}
    (h : as.mapM f = .ok bss) : ∃ g : α → List β, (∀ a ∈ as, f a = .ok (g a)) ∧ bss = as.map g := by
  refine ⟨fun a => (f a).toOption.getD [], ?_⟩
  induction mapM_eq_ok_iff.mp h with
  | nil => exact ⟨nofun, rfl⟩
  | cons ha hall ih =>
    obtain ⟨hvalues, hbss⟩ := ih (mapM_eq_ok_iff.mpr hall)
    refine ⟨List.forall_mem_cons.mpr ⟨?_, hvalues⟩, ?_⟩
    · dsimp only
      rw [ha]
      rfl
    · rw [List.map_cons, ← hbss, ha]
      rfl

theorem mapM_eq_error {f : α → Except ε β} {as : List α} {e : ε} (h : as.mapM f = .error e) :
    ∃ a ∈ as, f a = .error e := by
  induction as with
  | nil => cases h
  | cons a as ih =>
    rw [List.mapM_cons] at h
    cases ha : f a with
    | error e' =>
      rw [ha] at h
      cases h
      exact ⟨a, List.mem_cons_self, ha⟩
    | ok b =>
      cases has : as.mapM f with
      | error e' =>
        rw [ha, has] at h
        cases h
        obtain ⟨a', hmem, ha'⟩ := ih has
        exact ⟨a', List.mem_cons_of_mem a hmem, ha'⟩
      | ok bs =>
        rw [ha, has] at h
        cases h

theorem mapM_congr {f g : α → Except ε β} {as : List α} (h : ∀ a ∈ as, f a = g a) :
    as.mapM f = as.mapM g := by
  induction as with
  | nil => rfl
  | cons a as ih =>
    obtain ⟨ha, has⟩ := List.forall_mem_cons.mp h
    rw [List.mapM_cons, List.mapM_cons, ha, ih has]

/-- After an action that changes no tree, one goes on in the same tree. -/
theorem Still.answer_run_bind {x : ExceptT ε (StateM Tree) α} (hx : Still x.run)
    (f : α → ExceptT ε (StateM Tree) β) (t : Tree) :
    answer (x >>= f).run t = answer x.run t >>= fun a => answer (f a).run t := by
  rw [TypeLoom.answer_run_bind, hx]
  cases answer x.run t <;> rfl

theorem answer_run_mapM_of_still {f : α → ExceptT ε (StateM Tree) β} (hf : ∀ a, Still (f a).run)
    (as : List α) (t : Tree) :
    answer (as.mapM f).run t = as.mapM fun a => answer (f a).run t := by
  induction as with
  | nil => rfl
  | cons a as ih =>
    rw [List.mapM_cons, List.mapM_cons, (hf a).answer_run_bind]
    congr 1
    funext b
    rw [(still_run_mapM hf as).answer_run_bind, ih]
    rfl

end

namespace SchemaSource

/-! ### Searching a directory -/

/-- The accepted files that a path met in a search stands for. -/
def filesAt (s : SchemaSource) (depth : Nat) (ancestors : List Ancestor) (p : Path) :
    Action (StateM Tree) (List Path) := do
  match ← listed p (FileAccess.kind p) with
  | .file => return if s.accepts p then [p] else []
  | .other => return []
  | .directory =>
    let place ← listed p (FileAccess.canonical p)
    match ancestors.find? (·.place == place) with
    | some a => throw (.fileSystem p (.loop p a.path))
    | none => filesBelow s depth (⟨p, place⟩ :: ancestors) p

variable {s : SchemaSource} {depth : Nat} {ancestors : List Ancestor} {p dir : Path} {t : Tree}

/-- Names in the order in which they are searched. -/
def inOrder (names : List String) : List String := names.mergeSort fun a b => decide (a ≤ b)

theorem still_filesAt (s : SchemaSource) (depth : Nat) (ancestors : List Ancestor) (p : Path) :
    Still (s.filesAt depth ancestors p).run := by
  refine (still_listed (fun _ => rfl) p).run_bind fun kind => ?_
  cases kind with
  | file => exact still_run_pure _
  | other => exact still_run_pure _
  | directory =>
    refine (still_listed (fun _ => rfl) p).run_bind fun place => ?_
    split
    · exact still_run_throw _
    · exact still_filesBelow s depth _ p

theorem answer_filesAt (s : SchemaSource) (depth : Nat) (ancestors : List Ancestor) (p : Path)
    (t : Tree) :
    answer (s.filesAt depth ancestors p).run t =
      match t.kind p with
      | .error e => .error (.fileSystem p (.listing p e))
      | .ok .file => .ok (if s.accepts p then [p] else [])
      | .ok .other => .ok []
      | .ok .directory =>
        match t.canonical p with
        | .error e => .error (.fileSystem p (.listing p e))
        | .ok place =>
          match ancestors.find? (·.place == place) with
          | some a => .error (.fileSystem p (.loop p a.path))
          | none => answer (s.filesBelow depth (⟨p, place⟩ :: ancestors) p : Action _ _).run t := by
  unfold filesAt
  rw [(still_listed (fun _ => rfl) p).answer_run_bind, (run_listed p _ t).1, answer_kind]
  cases t.kind p with
  | error e => rfl
  | ok k =>
    cases k with
    | file => rfl
    | other => rfl
    | directory =>
      show answer (listed p (FileAccess.canonical p) >>= _ : Action (StateM Tree) (List Path)).run t = _
      rw [(still_listed (fun _ => rfl) p).answer_run_bind, (run_listed p _ t).1]
      have hcanonical : answer (FileAccess.canonical p : StateM Tree _) t = t.canonical p := rfl
      rw [hcanonical]
      dsimp only
      cases t.canonical p with
      | error e => rfl
      | ok place =>
        show answer (match ancestors.find? (·.place == place) with
          | some a => throw (.fileSystem p (.loop p a.path))
          | none => filesBelow s depth (⟨p, place⟩ :: ancestors) p :
            Action (StateM Tree) (List Path)).run t = _
        dsimp only
        cases ancestors.find? (·.place == place) <;> rfl

theorem answer_filesBelow (s : SchemaSource) (depth : Nat) (ancestors : List Ancestor) (dir : Path)
    (t : Tree) :
    answer (s.filesBelow (depth + 1) ancestors dir : Action (StateM Tree) _).run t =
      match t.names dir with
      | .error e => .error (.fileSystem dir (.listing dir e))
      | .ok names => do
        let found ← (inOrder names).mapM fun name =>
          answer (s.filesAt depth ancestors (dir.join ⟨name⟩)).run t
        return found.flatten := by
  have hcut : (s.filesBelow (depth + 1) ancestors dir : Action (StateM Tree) _) = do
      let names ← listed dir (FileAccess.names dir)
      let found ← (inOrder names).mapM fun name => s.filesAt depth ancestors (dir.join ⟨name⟩)
      return found.flatten := rfl
  rw [hcut, (still_listed (fun _ => rfl) dir).answer_run_bind, (run_listed dir _ t).1]
  have hnames : answer (FileAccess.names dir : StateM Tree _) t = t.names dir := rfl
  rw [hnames]
  cases t.names dir with
  | error e => rfl
  | ok names =>
    show answer (_ >>= _ : Action (StateM Tree) (List Path)).run t = _
    rw [(still_run_mapM (fun name => still_filesAt s depth ancestors _) _).answer_run_bind,
      answer_run_mapM_of_still fun name => still_filesAt s depth ancestors _]
    rfl

/-- A search that fails does so by an operation of the file system. -/
theorem filesBelow_error {e : Failure}
    (h : answer (s.filesBelow depth ancestors dir : Action (StateM Tree) _).run t = .error e) :
    ∃ p problem, e = .fileSystem p problem := by
  induction depth generalizing ancestors dir with
  | zero =>
    cases h
    exact ⟨_, _, rfl⟩
  | succ depth ih =>
    rw [answer_filesBelow] at h
    split at h
    · cases h
      exact ⟨_, _, rfl⟩
    · rename_i names _
      cases hfound : (inOrder names).mapM fun name =>
          answer (s.filesAt depth ancestors (dir.join ⟨name⟩)).run t with
      | ok found =>
        rw [hfound] at h
        cases h
      | error e' =>
        rw [hfound] at h
        cases h
        obtain ⟨name, -, hname⟩ := mapM_eq_error hfound
        rw [answer_filesAt] at hname
        split at hname
        · cases hname
          exact ⟨_, _, rfl⟩
        · cases hname
        · cases hname
        · split at hname
          · cases hname
            exact ⟨_, _, rfl⟩
          · split at hname
            · cases hname
              exact ⟨_, _, rfl⟩
            · exact ih hname

/-- What a search finds below a directory: for each name in it, what its path stands for. -/
theorem filesBelow_ok {ps : List Path}
    (h : answer (s.filesBelow (depth + 1) ancestors dir : Action (StateM Tree) _).run t = .ok ps) :
    ∃ place found, t.trail true dir = .present place .directory ∧
      (∀ name ∈ t.namesIn place,
        answer (s.filesAt depth ancestors (dir.join ⟨name⟩)).run t = .ok (found name)) ∧
      ps = (inOrder (t.namesIn place)).flatMap found := by
  rw [answer_filesBelow] at h
  cases hnames : t.names dir with
  | error e =>
    rw [hnames] at h
    cases h
  | ok names =>
    obtain ⟨place, hplace, rfl⟩ := directory_of_names hnames
    rw [hnames] at h
    dsimp only at h
    cases hfound : (inOrder (t.namesIn place)).mapM fun name =>
        answer (s.filesAt depth ancestors (dir.join ⟨name⟩)).run t with
    | error e =>
      rw [hfound] at h
      cases h
    | ok found =>
      rw [hfound] at h
      cases h
      obtain ⟨value, hvalue, rfl⟩ := mapM_eq_ok hfound
      refine ⟨place, value, hplace, fun name hname => hvalue name ?_, rfl⟩
      exact (List.mergeSort_perm _ _).mem_iff.mpr hname

/-- What a search finds are accepted files. -/
theorem kind_of_filesBelow {ps : List Path}
    (h : answer (s.filesBelow depth ancestors dir : Action (StateM Tree) _).run t = .ok ps) :
    ∀ p ∈ ps, t.kind p = .ok .file ∧ s.accepts p = true := by
  induction depth generalizing ancestors dir ps with
  | zero => cases h
  | succ depth ih =>
    obtain ⟨place, found, -, hfound, rfl⟩ := filesBelow_ok h
    intro p hp
    obtain ⟨name, hname, hp⟩ := List.mem_flatMap.mp hp
    replace hfound := hfound name ((List.mergeSort_perm _ _).mem_iff.mp hname)
    rw [answer_filesAt] at hfound
    split at hfound
    · cases hfound
    · rename_i hkind
      rw [← Except.ok.inj hfound] at hp
      split at hp
      · rename_i haccepts
        obtain rfl := List.mem_singleton.mp hp
        exact ⟨hkind, haccepts⟩
      · cases hp
    · rw [← Except.ok.inj hfound] at hp
      cases hp
    · split at hfound
      · cases hfound
      · split at hfound
        · cases hfound
        · exact ih hfound p hp

/-! ### Searching trees that have grown -/

section

variable {t' t₁ t₂ : Tree} {ps ps₁ ps₂ : List Path} {E : Failure → Prop}
  {written written₁ written₂ : Place → Prop}

/-- None of some paths leads to a file that was written. -/
def Clear (t : Tree) (written : Place → Prop) (ps : List Path) : Prop :=
  ∀ p ∈ ps, ∀ place content, t.trail true p = .present place (.file content) → ¬written place

theorem Clear.of_mem {found : List Path} (h : Clear t written ps) (hsub : ∀ p ∈ found, p ∈ ps) :
    Clear t written found := fun p hp => h p (hsub p hp)

theorem clear_nothing (t : Tree) (ps : List Path) : Clear t (fun _ => False) ps :=
  fun _ _ _ _ _ => not_false

/-- Nothing but files that were written is found for a new name, if that is so of new directories. -/
theorem filesAt_fresh {place : Place} {name : String}
    (hbelow : ∀ {ancestors dir place ps}, t'.trail true dir = .present place .directory →
      t.at? place = none →
      answer (s.filesBelow depth ancestors dir : Action (StateM Tree) _).run t' = .ok ps →
      Clear t' written ps → ps = [])
    (hplace : t'.trail true dir = .present place .directory) (hname : Fresh written t t' place name)
    (hok : answer (s.filesAt depth ancestors (dir.join ⟨name⟩)).run t' = .ok ps)
    (hclear : Clear t' written ps) : ps = [] := by
  rw [answer_filesAt] at hok
  rcases hname.stands with hdirectory | ⟨hwritten, content, hfile⟩
  · have htrail := trail_join hplace hname.proper hdirectory nofun
    rw [kind_directory_iff.mpr ⟨_, htrail⟩, canonical_of_present htrail] at hok
    dsimp only at hok
    split at hok
    · cases hok
    · exact hbelow htrail hname.none hok hclear
  · have htrail := trail_join hplace hname.proper hfile nofun
    rw [kind_file_iff.mpr ⟨_, _, htrail⟩] at hok
    obtain rfl := Except.ok.inj hok
    split at hclear
    · exact absurd hwritten (hclear _ (List.mem_singleton_self _) _ _ htrail)
    · rename_i hrefused
      exact if_neg hrefused

/-- Nothing but files that were written is found below a new directory. -/
theorem filesBelow_new (hs : t.Sound) (h : Grown written t t') {place : Place}
    (hplace : t'.trail true dir = .present place .directory) (hnew : t.at? place = none)
    (hok : answer (s.filesBelow depth ancestors dir : Action (StateM Tree) _).run t' = .ok ps)
    (hclear : Clear t' written ps) : ps = [] := by
  induction depth generalizing ancestors dir place ps with
  | zero => cases hok
  | succ depth ih =>
    obtain ⟨place', found, hplace', hfound, rfl⟩ := filesBelow_ok hok
    rw [hplace] at hplace'
    cases hplace'
    obtain ⟨new, hnames, hfresh⟩ := h place
    rw [hs.namesIn_of_none hnew, List.append_nil] at hnames
    refine List.flatMap_eq_nil_iff.mpr fun name hname => ?_
    have hmem := (List.mergeSort_perm _ _).mem_iff.mp hname
    exact filesAt_fresh ih hplace (hfresh name (hnames.mem_iff.mp hmem)) (hfound name hmem)
      (hclear.of_mem fun p hp => List.mem_flatMap.mpr ⟨name, hname, hp⟩)

/-- What is kept of names in order does not depend on the order in which they are given. -/
theorem filter_inOrder {names kept : List String} {p : String → Bool}
    (h : (names.filter p).Perm kept) : (inOrder names).filter p = inOrder kept := by
  have htrans : ∀ a b c : String, decide (a ≤ b) → decide (b ≤ c) → decide (a ≤ c) := by
    simpa using fun a b c => String.le_trans
  have htotal : ∀ a b : String, decide (a ≤ b) || decide (b ≤ a) := by
    simpa using String.le_total
  have hantisymm : ∀ a b : String, decide (a ≤ b) → decide (b ≤ a) → a = b := by
    simpa using fun a b => String.le_antisymm
  rw [inOrder, Sorting.filter_mergeSort htrans htotal hantisymm,
    Sorting.mergeSort_eq_of_perm htrans htotal hantisymm h, inOrder]

/-- In a tree that has grown, a search finds what stands for the names that were there before. -/
theorem filesBelow_old (hs : t.Sound) (h : Grown written t t')
    (hok : answer (s.filesBelow (depth + 1) ancestors dir : Action (StateM Tree) _).run t' = .ok ps)
    (hclear : Clear t' written ps) :
    ∃ place found, t'.trail true dir = .present place .directory ∧
      (∀ name ∈ t.namesIn place,
        answer (s.filesAt depth ancestors (dir.join ⟨name⟩)).run t' = .ok (found name)) ∧
      ps = (inOrder (t.namesIn place)).flatMap found := by
  obtain ⟨place, found, hplace, hfound, rfl⟩ := filesBelow_ok hok
  obtain ⟨new, hnames, hfresh⟩ := h place
  have hall : ∀ name ∈ new ++ t.namesIn place, name ∈ t'.namesIn place :=
    fun name => hnames.mem_iff.mpr
  obtain ⟨hnew, hold⟩ := List.forall_mem_append.mp hall
  refine ⟨place, found, hplace, fun name hname => hfound name (hold name hname), ?_⟩
  -- New names come between the old ones, but nothing is found for them.
  have hnil : ∀ name ∈ new, found name = [] := fun name hname =>
    filesAt_fresh (filesBelow_new hs h) hplace (hfresh name hname) (hfound name (hnew name hname))
      (hclear.of_mem fun p hp => List.mem_flatMap.mpr
        ⟨name, (List.mergeSort_perm _ _).mem_iff.mpr (hnew name hname), hp⟩)
  have hfilter : ((t'.namesIn place).filter (decide <| · ∈ t.namesIn place)).Perm
      (t.namesIn place) := by
    refine (hnames.filter _).trans ?_
    rw [List.filter_append, List.filter_eq_nil_iff.mpr, List.filter_eq_self.mpr, List.nil_append]
    · exact fun name hname => decide_eq_true hname
    · intro name hname hmem
      exact at?_ne_none_of_mem_namesIn (of_decide_eq_true hmem) (hfresh name hname).none
  calc (inOrder (t'.namesIn place)).flatMap found
      = ((inOrder (t'.namesIn place)).filter (decide <| · ∈ t.namesIn place)).flatMap found := by
        refine (flatMap_filter_of_nil fun name hname hmem => hnil name ?_).symm
        have hmem' := (List.mergeSort_perm _ _).mem_iff.mp hname
        exact (List.mem_append.mp (hnames.mem_iff.mp hmem')).resolve_right
          (of_decide_eq_false hmem)
    _ = (inOrder (t.namesIn place)).flatMap found := by
        rw [filter_inOrder hfilter]

/-- A path that leads to something in both of two trees leads to the same directory or to files. -/
structure LeadsAlike (t₁ t₂ : Tree) : Prop where
  directory : ∀ {p place k}, t₁.trail true p = .present place .directory → t₂.kind p = .ok k →
    t₂.trail true p = .present place .directory
  file : ∀ {p k}, t₁.kind p = .ok .file → t₂.kind p = .ok k → t₂.kind p = .ok .file

theorem leadsAlike_of_later (h : Later t t') : LeadsAlike t t' :=
  ⟨fun hp _ => h.directory_trail hp, fun hp _ => h.kind_file hp⟩

theorem leadsAlike_of_furnished (h₁ : Furnished t t₁) (h₂ : Furnished t t₂) : LeadsAlike t₁ t₂ where
  directory hp hk := (h₁.trail_eq h₂ (kind_directory_iff.mpr ⟨_, hp⟩) hk).trans hp
  file hp hk := (kept_of_trail_eq (h₁.trail_eq h₂ hp hk)).kind.trans hp

/-- In trees that have grown from one, the same is found unless a search fails. -/
theorem filesBelow_unique (hs : t.Sound) (h₁ : Grown written₁ t t₁) (h₂ : Grown written₂ t t₂)
    (halike : LeadsAlike t₁ t₂)
    (hok₁ : answer (s.filesBelow depth ancestors dir : Action (StateM Tree) _).run t₁ = .ok ps₁)
    (hclear₁ : Clear t₁ written₁ ps₁)
    (hok₂ : answer (s.filesBelow depth ancestors dir : Action (StateM Tree) _).run t₂ = .ok ps₂)
    (hclear₂ : Clear t₂ written₂ ps₂) : ps₁ = ps₂ := by
  induction depth generalizing ancestors dir ps₁ ps₂ with
  | zero => cases hok₁
  | succ depth ih =>
    obtain ⟨place, found₁, hplace₁, hfound₁, rfl⟩ := filesBelow_old hs h₁ hok₁ hclear₁
    obtain ⟨place', found₂, hplace₂, hfound₂, rfl⟩ := filesBelow_old hs h₂ hok₂ hclear₂
    have hsame := halike.directory hplace₁ (kind_directory_iff.mpr ⟨_, hplace₂⟩)
    rw [hplace₂] at hsame
    cases hsame
    refine List.flatMap_congr fun name hname => ?_
    have hc₁ := hclear₁.of_mem fun p hp => List.mem_flatMap.mpr ⟨name, hname, hp⟩
    have hc₂ := hclear₂.of_mem fun p hp => List.mem_flatMap.mpr ⟨name, hname, hp⟩
    replace hname := (List.mergeSort_perm _ _).mem_iff.mp hname
    replace hfound₁ := hfound₁ name hname
    replace hfound₂ := hfound₂ name hname
    rw [answer_filesAt] at hfound₁ hfound₂
    generalize dir.join ⟨name⟩ = p at hfound₁ hfound₂
    cases hk₁ : t₁.kind p with
    | error e =>
      rw [hk₁] at hfound₁
      cases hfound₁
    | ok k₁ =>
      cases hk₂ : t₂.kind p with
      | error e =>
        rw [hk₂] at hfound₂
        cases hfound₂
      | ok k₂ =>
        rcases kind_cases hk₁ with hfile | hdirectory
        · rw [hfile] at hfound₁
          rw [halike.file hfile hk₂] at hfound₂
          exact Except.ok.inj (hfound₁.symm.trans hfound₂)
        · obtain ⟨there, hthere₁⟩ := kind_directory_iff.mp hdirectory
          have hthere₂ := halike.directory hthere₁ hk₂
          rw [hdirectory, canonical_of_present hthere₁] at hfound₁
          rw [kind_directory_iff.mpr ⟨_, hthere₂⟩, canonical_of_present hthere₂] at hfound₂
          dsimp only at hfound₁ hfound₂
          split at hfound₁
          · cases hfound₁
          · rename_i hfind
            rw [hfind] at hfound₂
            exact ih hfound₁ hc₁ hfound₂ hc₂

theorem filesBelow_alike (hs : t.Sound) (h₁ : Furnished t t₁) (h₂ : Furnished t t₂) :
    Alike E Eq (answer (s.filesBelow depth ancestors dir : Action (StateM Tree) _).run t₁)
      (answer (s.filesBelow depth ancestors dir : Action (StateM Tree) _).run t₂) := by
  cases hok₁ : answer (s.filesBelow depth ancestors dir : Action (StateM Tree) _).run t₁ with
  | error e =>
    obtain ⟨p, problem, rfl⟩ := filesBelow_error hok₁
    exact .left p problem _
  | ok ps₁ =>
    cases hok₂ : answer (s.filesBelow depth ancestors dir : Action (StateM Tree) _).run t₂ with
    | error e =>
      obtain ⟨p, problem, rfl⟩ := filesBelow_error hok₂
      exact .right p problem _
    | ok ps₂ =>
      exact .ok (filesBelow_unique hs h₁.grown h₂.grown (leadsAlike_of_furnished h₁ h₂) hok₁
        (clear_nothing _ _) hok₂ (clear_nothing _ _))

/-! ### Loading -/

theorem answer_files (s : SchemaSource) (t : Tree) :
    answer (s.files : Action (StateM Tree) _).run t =
      match t.kind s.path with
      | .ok .file => .ok [s.path]
      | .ok .directory =>
        match t.canonical s.path with
        | .error e => .error (.fileSystem s.path (.listing s.path e))
        | .ok place => answer (s.filesBelow maxDepth [⟨s.path, place⟩] s.path : Action _ _).run t
      | _ => .error (.invalidSchemaInput s.path) := by
  rw [files, (still_isFile s.path).run_lift.answer_run_bind, answer_run_lift, answer_isFile]
  show answer (if decide (t.kind s.path = .ok .file) = true then _ else _ :
    Action (StateM Tree) (List Path)).run t = _
  by_cases hfile : t.kind s.path = .ok .file
  · rw [hfile]
    rfl
  · rw [if_neg (by simpa using hfile), (still_isDirectory s.path).run_lift.answer_run_bind,
      answer_run_lift, answer_isDirectory]
    show answer (if decide (t.kind s.path = .ok .directory) = true then _ else _ :
      Action (StateM Tree) (List Path)).run t = _
    by_cases hdirectory : t.kind s.path = .ok .directory
    · rw [if_pos (by simpa using hdirectory), hdirectory,
        (still_listed (fun _ => rfl) s.path).answer_run_bind, (run_listed s.path _ t).1]
      have hcanonical : answer (FileAccess.canonical s.path : StateM Tree _) t =
        t.canonical s.path := rfl
      rw [hcanonical]
      cases t.canonical s.path <;> rfl
    · rw [if_neg (by simpa using hdirectory)]
      split
      · exact absurd ‹_› hfile
      · exact absurd ‹_› hdirectory
      · rfl

theorem kind_of_files (h : answer (s.files : Action (StateM Tree) _).run t = .ok ps) :
    ∀ p ∈ ps, t.kind p = .ok .file ∧ (p = s.path ∨ s.accepts p = true) := by
  rw [answer_files] at h
  split at h
  · rename_i hkind
    cases h
    intro p hp
    obtain rfl := List.mem_singleton.mp hp
    exact ⟨hkind, .inl rfl⟩
  · split at h
    · cases h
    · exact fun p hp => (kind_of_filesBelow h p hp).imp_right .inr
  · cases h

theorem answer_readSource (p : Path) (t : Tree) :
    answer (readSource p : Action (StateM Tree) _).run t =
      match answer (readText p : ExceptT ReadProblem (StateM Tree) _).run t with
      | .ok text => .ok (p, text)
      | .error e => .error (.read e) := by
  rw [readSource, answer_run_bind, answer_run_lift]
  cases answer (readText p : ExceptT ReadProblem (StateM Tree) _).run t <;> rfl

theorem answer_load (s : SchemaSource) (t : Tree) :
    answer (s.load : Action (StateM Tree) _).run t =
      answer (s.files : Action (StateM Tree) _).run t >>= fun files =>
        (files.mapM fun p => answer (readSource p : Action (StateM Tree) _).run t) >>=
          documentOf := by
  have hread : ∀ p, Still (readSource p : Action (StateM Tree) _).run := fun p => by
    refine (still_readText p).run_lift.run_bind fun r => ?_
    split
    · exact still_run_pure _
    · exact still_run_throw _
  rw [load, (still_files s).answer_run_bind]
  congr 1
  funext files
  rw [(still_run_mapM hread files).answer_run_bind, answer_run_mapM_of_still hread]
  rfl

theorem files_alike (hs : t.Sound) (h₁ : Furnished t t₁) (h₂ : Furnished t t₂) {k : Files.Kind}
    (hk : t.kind s.path = .ok k) :
    Alike E Eq (answer (s.files : Action (StateM Tree) _).run t₁)
      (answer (s.files : Action (StateM Tree) _).run t₂) := by
  rw [answer_files, answer_files]
  rcases kind_cases hk with hfile | hdirectory
  · rw [h₁.later.kind_file hfile, h₂.later.kind_file hfile]
    exact .ok rfl
  · rw [h₁.later.kind_directory hdirectory, h₂.later.kind_directory hdirectory]
    obtain ⟨place, e, hp⟩ := present_of_kind hk
    rw [canonical_of_present (h₁.fills.trail_present hp),
      canonical_of_present (h₂.fills.trail_present hp)]
    exact filesBelow_alike hs h₁ h₂

theorem readSource_error {e : Failure} (hkind : t.kind p = .ok .file)
    (h : answer (readSource p : Action (StateM Tree) _).run t = .error e) : Textual e := by
  obtain ⟨place, content, hp⟩ := kind_file_iff.mp hkind
  rw [answer_readSource, answer_readText, hkind, read_of_trail hp] at h
  dsimp only at h
  cases hdecode : Text.Utf8.decode content with
  | error problem =>
    rw [hdecode] at h
    cases h
    exact .inr ⟨p, problem, rfl⟩
  | ok cs =>
    rw [hdecode] at h
    cases h

theorem documentOf_error {sources : List (Path × String)} {e : Failure}
    (h : documentOf sources = .error e) : Textual e := by
  unfold documentOf at h
  dsimp only at h
  split at h
  · cases h
  · cases h
    exact .inl ⟨_, rfl⟩

/-- In trees that were furnished from one in which the input stood, the same schema is loaded, or
loading fails for the same text. -/
theorem load_alike (hs : t.Sound) (h₁ : Furnished t t₁) (h₂ : Furnished t t₂) {k : Files.Kind}
    (hk : t.kind s.path = .ok k) :
    Alike Textual Eq (answer (s.load : Action (StateM Tree) _).run t₁)
      (answer (s.load : Action (StateM Tree) _).run t₂) := by
  rw [answer_load, answer_load]
  refine (files_alike hs h₁ h₂ hk).bind fun ps ps' hok₁ hok₂ hps => ?_
  subst hps
  have hkind : ∀ p ∈ ps, t₂.kind p = .ok .file := fun p hp => (kind_of_files hok₂ p hp).1
  have hread : ∀ p ∈ ps, answer (readSource p : Action (StateM Tree) _).run t₁ =
      answer (readSource p : Action (StateM Tree) _).run t₂ := by
    intro p hp
    have hsame := h₁.trail_eq h₂ (kind_of_files hok₁ p hp).1 (hkind p hp)
    have hkept := kept_of_trail_eq hsame
    rw [answer_readSource, answer_readSource, answer_readText, answer_readText, hkept.kind,
      hkept.read]
  rw [mapM_congr hread]
  refine .refl fun e he => ?_
  cases hsources : ps.mapM fun p => answer (readSource p : Action (StateM Tree) _).run t₂ with
  | error e' =>
    rw [hsources] at he
    cases he
    obtain ⟨p, hp, herror⟩ := mapM_eq_error hsources
    exact readSource_error (hkind p hp) herror
  | ok sources =>
    rw [hsources] at he
    exact documentOf_error he

end

end SchemaSource

end TypeLoom.Plugins
