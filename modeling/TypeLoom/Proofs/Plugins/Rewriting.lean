import TypeLoom.Proofs.Files.Later
import TypeLoom.Proofs.Plugins.Soundness

/-!
# Files that are written again

A directory that was created and a file that was written, after which other files were written, are
found as they were left. Main statements: files that lead to different places and are written in
order are all kept, and writing them once more changes nothing.
-/

namespace TypeLoom.Plugins

open Files Files.Tree Pipeline

/-! ### Directories -/

/-- A directory that need not be created. -/
def Readied (t : Tree) (q : Path) : Prop := q.raw.isEmpty = true ∨ t.kind q = .ok .directory

section

variable {t t' T : Tree} {q : Path}

theorem Readied.later (h : Readied t q) (hl : Later t t') : Readied t' q := h.imp_right hl.kind_directory

theorem writes_createLineage (hs : t.Sound) (T : Tree) (ps : List Path) :
    Writes T [] t (worldAfter (createLineage ps : StateM Tree _) t) :=
  createLineage_induction (I := Writes T [] t)
    (fun p _ _ h => h.trans (writes_createDirectory h.sound T p)) (.refl hs T [])

theorem kind_of_createLineage (hs : t.Sound) {above : List Path}
    (h : answer (createLineage (q :: above) : StateM Tree _) t = .ok ()) :
    (worldAfter (createLineage (q :: above) : StateM Tree _) t).kind q = .ok .directory := by
  have hs' := keeps_ensureDirectory q t hs
  rw [createLineage, answer_bind] at h
  rw [createLineage, worldAfter_bind]
  cases ha : answer (ensureDirectory q : StateM Tree _) t with
  | ok =>
    dsimp only
    rw [worldAfter_pure]
    exact kind_of_ensureDirectory hs ha
  | error e =>
    rw [ha] at h
    dsimp only at h ⊢
    split at h
    · rename_i hmissing
      rw [if_pos hmissing, worldAfter_bind]
      rw [answer_bind] at h
      have habove := keeps_createLineage above _ hs'
      cases hc : answer (createLineage above : StateM Tree _)
          (worldAfter (ensureDirectory q : StateM Tree _) t) with
      | ok =>
        rw [hc] at h
        exact kind_of_ensureDirectory habove h
      | error e =>
        rw [hc] at h
        cases h
    · cases h

/-- Nothing is done for the empty path, for any other one its lineage is created. -/
theorem createDirectories_cases (q : Path) :
    (q.raw.isEmpty = true ∧ (createDirectories q : StateM Tree _) = pure (.ok ())) ∨
      ∃ above, (createDirectories q : StateM Tree _) = createLineage (q :: above) := by
  unfold createDirectories lineage
  cases hq : q.raw.isEmpty with
  | true => exact .inl ⟨rfl, rfl⟩
  | false => exact .inr ⟨_, rfl⟩

theorem readied_of_createDirectories (hs : t.Sound)
    (h : answer (createDirectories q : StateM Tree _) t = .ok ()) :
    Readied (worldAfter (createDirectories q : StateM Tree _) t) q := by
  rcases createDirectories_cases q with ⟨hempty, -⟩ | ⟨above, heq⟩
  · exact .inl hempty
  · rw [heq] at h ⊢
    exact .inr (kind_of_createLineage hs h)

theorem createDirectories_of_readied (h : Readied t q) :
    answer (createDirectories q : StateM Tree _) t = .ok () ∧
      worldAfter (createDirectories q : StateM Tree _) t = t := by
  rcases createDirectories_cases q with ⟨-, heq⟩ | ⟨above, heq⟩
  · rw [heq]
    exact ⟨rfl, rfl⟩
  · rcases h with hempty | hdirectory
    · rw [createDirectories, lineage, if_pos hempty]
      exact ⟨rfl, rfl⟩
    · obtain ⟨ha, hw⟩ := ensureDirectory_of_directory hdirectory
      rw [heq, createLineage, answer_bind, worldAfter_bind, ha, hw]
      exact ⟨rfl, rfl⟩

theorem writes_makeDirectories (hs : t.Sound) (T : Tree) (q : Path) :
    Writes T [] t (worldAfter (makeDirectories q : Action (StateM Tree) _).run t) := by
  rw [makeDirectories, (run_onFile q _ t).2]
  exact writes_createLineage hs T _

theorem readied_of_makeDirectories (hs : t.Sound)
    (h : answer (makeDirectories q : Action (StateM Tree) _).run t = .ok ()) :
    Readied (worldAfter (makeDirectories q : Action (StateM Tree) _).run t) q := by
  rw [makeDirectories, (run_onFile q _ t).1] at h
  rw [makeDirectories, (run_onFile q _ t).2]
  refine readied_of_createDirectories hs ?_
  cases ha : answer (createDirectories q : StateM Tree _) t with
  | ok => rfl
  | error e =>
    rw [ha] at h
    cases h

theorem makeDirectories_of_readied (h : Readied t q) :
    answer (makeDirectories q : Action (StateM Tree) _).run t = .ok () ∧
      worldAfter (makeDirectories q : Action (StateM Tree) _).run t = t := by
  obtain ⟨ha, hw⟩ := createDirectories_of_readied h
  rw [makeDirectories, (run_onFile q _ t).1, (run_onFile q _ t).2, ha, hw]
  exact ⟨rfl, rfl⟩

end

/-! ### Files -/

/-- A file that holds a text, in a directory that need not be created. -/
structure Written (t : Tree) (p : Path) (text : String) : Prop where
  readied : ∀ parent, p.parent? = some parent → Readied t parent
  holds : ∃ place, t.trail true p = .present place (.file (Text.Utf8.encode text.toList))

section

variable {t t' T : Tree} {p : Path} {text : String}

theorem Written.same (h : Written t p text) (hsame : Same t t') : Written t' p text where
  readied := fun parent hparent => (h.readied parent hparent).later hsame.later
  holds := by
    rw [hsame.trail_eq]
    exact h.holds

/-- A file that was written is kept by what is written to other places. -/
theorem Written.kept {rest : List Path} (h : Written t p text) (hrest : Writes T rest t T)
    (hapart : ∀ q ∈ rest, T.canonical q ≠ T.canonical p) : Written T p text where
  readied := fun parent hparent => (h.readied parent hparent).later hrest.later
  holds := by
    obtain ⟨place, hplace⟩ := h.holds
    rw [hrest.kept hplace hapart]
    exact ⟨place, hplace⟩

theorem writes_readyFile (hs : t.Sound) (T : Tree) (p : Path) :
    Writes T [] t (worldAfter (readyFile p).run t) := by
  unfold readyFile
  split
  · split
    · exact .refl hs T []
    · exact writes_makeDirectories hs T _
  · exact .refl hs T []

theorem readied_of_readyFile (hs : t.Sound) (h : answer (readyFile p).run t = .ok ())
    {parent : Path} (hparent : p.parent? = some parent) :
    Readied (worldAfter (readyFile p).run t) parent := by
  unfold readyFile at h ⊢
  rw [hparent] at h ⊢
  dsimp only at h ⊢
  split at h
  · rename_i hempty
    exact .inl hempty
  · rename_i hne
    rw [if_neg hne]
    exact readied_of_makeDirectories hs h

theorem readyFile_of_readied (h : ∀ parent, p.parent? = some parent → Readied t parent) :
    answer (readyFile p).run t = .ok () ∧ worldAfter (readyFile p).run t = t := by
  unfold readyFile
  cases hparent : p.parent? with
  | none => exact ⟨rfl, rfl⟩
  | some parent =>
    dsimp only
    split
    · exact ⟨rfl, rfl⟩
    · exact makeDirectories_of_readied (h parent hparent)

theorem run_writeText (p : Path) (text : String) (t : Tree) :
    answer (onFile p (writeText p text)).run t =
        ((t.write p (Text.Utf8.encode text.toList)).1).mapError (fun e => .fileSystem p (.os e)) ∧
      worldAfter (onFile p (writeText p text)).run t =
        (t.write p (Text.Utf8.encode text.toList)).2 := run_onFile p _ t

theorem writes_writeFile (hs : t.Sound) (p : Path) (text : String)
    (hT : Later (worldAfter (writeFile p text : Action (StateM Tree) _).run t) T) :
    Writes T [p] t (worldAfter (writeFile p text : Action (StateM Tree) _).run t) := by
  have hready := writes_readyFile hs T p
  rw [writeFile_eq, worldAfter_run_bind] at hT ⊢
  split at hT
  · rw [(run_writeText p text _).2] at hT ⊢
    exact hready.trans (writes_write hready.sound p _ hT)
  · exact hready.mono fun _ h => absurd h List.not_mem_nil

theorem written_of_writeFile (hs : t.Sound)
    (h : answer (writeFile p text : Action (StateM Tree) _).run t = .ok ()) :
    Written (worldAfter (writeFile p text : Action (StateM Tree) _).run t) p text := by
  have hready := writes_readyFile hs t p
  rw [writeFile_eq] at h ⊢
  obtain ⟨_, ha, hwrite, hworld⟩ := run_bind_ok h
  have hparent : ∀ parent, p.parent? = some parent →
      Readied (worldAfter (readyFile p).run t) parent := fun parent hp =>
    readied_of_readyFile hs ha hp
  rw [hworld]
  generalize worldAfter (readyFile p).run t = t' at *
  rw [(run_writeText p text t').1] at hwrite
  rw [(run_writeText p text t').2]
  have hok : (t'.write p (Text.Utf8.encode text.toList)).1 = .ok () := by
    cases hw : (t'.write p (Text.Utf8.encode text.toList)).1 with
    | ok => rfl
    | error e =>
      rw [hw] at hwrite
      cases hwrite
  have hlater := (writes_write hready.sound p (Text.Utf8.encode text.toList) (Later.refl _)).later
  exact ⟨fun parent hp => (hparent parent hp).later hlater, trail_of_write hready.sound hok⟩

/-- Writing a file once more changes nothing. -/
theorem writeFile_again (h : Written t p text) :
    answer (writeFile p text : Action (StateM Tree) _).run t = .ok () ∧
      Same t (worldAfter (writeFile p text : Action (StateM Tree) _).run t) := by
  obtain ⟨ha, hw⟩ := readyFile_of_readied h.readied
  obtain ⟨place, hplace⟩ := h.holds
  obtain ⟨hok, hsame⟩ := write_same hplace
  rw [writeFile_eq, answer_run_bind, worldAfter_run_bind, ha]
  dsimp only
  rw [hw, (run_writeText p text t).1, (run_writeText p text t).2, hok]
  exact ⟨rfl, hsame⟩

end

section

variable {t T : Tree} {files : List (Path × String)} {rest : List Path}

/-- Writes files in order. -/
def writeEach (files : List (Path × String)) : Action (StateM Tree) PUnit :=
  files.forM fun (p, text) => writeFile p text

theorem writeEach_cons (f : Path × String) (files : List (Path × String)) :
    writeEach (f :: files) = writeFile f.1 f.2 >>= fun _ => writeEach files := rfl

theorem writeEach_ok {f : Path × String} (h : answer (writeEach (f :: files)).run t = .ok ()) :
    answer (writeFile f.1 f.2 : Action (StateM Tree) _).run t = .ok () ∧
      answer (writeEach files).run
        (worldAfter (writeFile f.1 f.2 : Action (StateM Tree) _).run t) = .ok () ∧
      worldAfter (writeEach (f :: files)).run t = worldAfter (writeEach files).run
        (worldAfter (writeFile f.1 f.2 : Action (StateM Tree) _).run t) := by
  rw [writeEach_cons] at h ⊢
  obtain ⟨_, hfirst, hrest, hworld⟩ := run_bind_ok h
  exact ⟨hfirst, hrest, hworld⟩

theorem writes_writeEach (hs : t.Sound) (h : answer (writeEach files).run t = .ok ())
    (hT : Later (worldAfter (writeEach files).run t) T) :
    Writes T (files.map (·.1)) t (worldAfter (writeEach files).run t) := by
  induction files generalizing t with
  | nil => exact .refl hs T []
  | cons f files ih =>
    obtain ⟨-, hrest, hworld⟩ := writeEach_ok h
    rw [hworld] at hT ⊢
    have htail := ih (keeps_writeFile f.1 f.2 t hs) hrest hT
    exact (writes_writeFile hs f.1 f.2 (htail.later.trans hT)).trans htail

/-- Files that were written are kept if they lead to different places and nothing else is written
there. -/
theorem written_of_writeEach (hs : t.Sound) (h : answer (writeEach files).run t = .ok ())
    (hrest : Writes T rest (worldAfter (writeEach files).run t) T)
    (hnodup : ((files.map (·.1) ++ rest).map T.canonical).Nodup) :
    ∀ f ∈ files, Written T f.1 f.2 := by
  induction files generalizing t with
  | nil => exact nofun
  | cons f files ih =>
    obtain ⟨hfirst, hothers, hworld⟩ := writeEach_ok h
    rw [hworld] at hrest
    have hs' := keeps_writeFile f.1 f.2 t hs
    rw [List.map_cons, List.cons_append, List.map_cons, List.nodup_cons] at hnodup
    have htail := (writes_writeEach hs' hothers hrest.later).trans hrest
    refine List.forall_mem_cons.mpr ⟨?_, ih hs' hothers hrest hnodup.2⟩
    refine (written_of_writeFile hs hfirst).kept htail fun q hq hsame => ?_
    exact hnodup.1 (hsame ▸ List.mem_map_of_mem hq)

theorem writeEach_again (h : ∀ f ∈ files, Written t f.1 f.2) :
    answer (writeEach files).run t = .ok () ∧ Same t (worldAfter (writeEach files).run t) := by
  induction files generalizing t with
  | nil => exact ⟨rfl, .refl t⟩
  | cons f files ih =>
    obtain ⟨hf, hfiles⟩ := List.forall_mem_cons.mp h
    obtain ⟨ha, hsame⟩ := writeFile_again hf
    obtain ⟨hrest, hsame'⟩ := ih fun g hg => (hfiles g hg).same hsame
    rw [writeEach_cons, answer_run_bind, worldAfter_run_bind, ha]
    exact ⟨hrest, hsame.trans hsame'⟩

end

end TypeLoom.Plugins
