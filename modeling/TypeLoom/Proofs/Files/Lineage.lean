import TypeLoom.Proofs.Files.Target
import TypeLoom.Proofs.Path.Parent
import TypeLoom.Proofs.World

/-!
# Directories above a path

Main statement: creating the directories above a path creates nothing but missing directories above
the place that the path is meant for. The path is meant for the same place as before, and what the
tree answers for it is the same.
-/

namespace TypeLoom.Files

open TypeLoom.Path (denoting Begins)

namespace Tree

theorem trimmedPath_eq_self {q : Path} (h : q.raw.toList.getLast? ≠ some '/') :
    trimmedPath q = q := by
  have hdrop : q.raw.toList.reverse.dropWhile (· == '/') = q.raw.toList.reverse := by
    cases hcs : q.raw.toList.reverse with
    | nil => rfl
    | cons c cs =>
      refine List.dropWhile_cons_of_neg ?_
      rw [← List.head?_reverse, hcs] at h
      simpa using h
  rw [trimmedPath, hdrop, List.reverse_reverse, String.ofList_toList]

theorem leads_of_begins {q p : Path} (h : Begins q p) : Leads q p := by
  obtain ⟨more, hp, hmore⟩ := h.pieces
  refine .inr ⟨more, ?_, hmore, ?_, ?_⟩
  · rw [trimmedPath_eq_self h.closed]
    exact hp
  · rw [trimmedPath_eq_self h.closed]
    exact h.absolute
  · -- The empty path has one piece.
    cases hempty : p.raw.isEmpty with
    | false => rfl
    | true =>
      have hraw : p.raw = "" := String.isEmpty_iff.1 hempty
      have hpieces : p.pieces = [""] := by
        rw [Path.pieces, hraw]
        rfl
      rw [hpieces] at hp
      rcases List.append_eq_singleton_iff.1 hp.symm with ⟨hq, -⟩ | ⟨-, rfl⟩
      · exact absurd (List.map_eq_nil_iff.1 hq) (Text.splitAt_ne_nil _ _)
      · exact absurd rfl hmore

/-- A path above another one leads to it. -/
theorem leads_of_mem_lineage {p q : Path} (hq : q = ⟨""⟩ ∨ q = ⟨"/"⟩ ∨ Begins q p) (n : Nat)
    {r : Path} (hr : r ∈ lineage n q) : Leads r p := by
  induction n generalizing q with
  | zero => cases hr
  | succ n ih =>
    rw [lineage] at hr
    split at hr
    · cases hr
    · rename_i hne
      rcases List.mem_cons.1 hr with rfl | hr
      · rcases hq with rfl | rfl | hq
        · exact absurd rfl hne
        · exact .inl (by decide)
        · exact leads_of_begins hq
      · split at hr
        · rename_i parent hparent
          refine ih ?_ hr
          rcases Path.parent?_cases hparent with h | h | h
          · exact .inl h
          · exact .inr (.inl h)
          · rcases hq with rfl | rfl | hq
            · exact absurd rfl hne
            · cases hparent
            · exact .inr (.inr (h.trans hq))
        · cases hr

/-- Only directories above the place that a path is meant for were created. -/
structure Readies (t t' : Tree) (p : Path) : Prop where
  sound : t'.Sound
  fills : Fills (above (t.trail true p)) (fun _ => False) t t'
  target : (t'.trail true p).target? = (t.trail true p).target?
  settled : (t'.trail true p).settled = true
  kept : Kept t t' p

section

variable {t t' t'' : Tree} {p q : Path}

theorem Readies.refl (hs : t.Sound) (hp : (t.trail true p).settled = true) : Readies t t p :=
  ⟨hs, .refl _ _ t, rfl, hp, .refl t p⟩

theorem above_congr {τ τ' : Trail} (h : τ'.target? = τ.target?) : above τ' = above τ := by
  unfold above
  rw [h]

theorem Readies.trans (h : Readies t t' p) (h' : Readies t' t'' p) : Readies t t'' p :=
  ⟨h'.sound, h.fills.trans (above_congr h.target ▸ h'.fills), h'.target.trans h.target, h'.settled,
    h.kept.trans h'.kept⟩

theorem readies_createDirectory (hs : t.Sound) (hq : Leads q p)
    (hp : (t.trail true p).settled = true) : Readies t (t.createDirectory q).2 p := by
  have hfills := createDirectory_fills hs hq hp
  obtain ⟨hkept, htarget, hsettled⟩ := kept_of_fills hs hfills hp fun place hplace =>
    ⟨fun ⟨place', hplace', _, hne⟩ => hne (Option.some.inj (hplace.symm.trans hplace')),
      fun _ h => h.elim⟩
  exact ⟨sound_createDirectory hs q, hfills, htarget, hsettled, hkept⟩

end

/-! ### What the operations of a tree do as actions -/

section

variable (t : Tree) (p : Path)

@[simp]
theorem answer_kind : answer (FileAccess.kind p : StateM Tree _) t = t.kind p := rfl

@[simp]
theorem worldAfter_kind : worldAfter (FileAccess.kind p : StateM Tree _) t = t := rfl

@[simp]
theorem answer_read : answer (FileAccess.read p : StateM Tree _) t = t.read p := rfl

@[simp]
theorem worldAfter_read : worldAfter (FileAccess.read p : StateM Tree _) t = t := rfl

theorem answer_writeText (text : String) :
    answer (writeText p text : StateM Tree _) t = (t.write p (Text.Utf8.encode text.toList)).1 := rfl

theorem worldAfter_writeText (text : String) :
    worldAfter (writeText p text : StateM Tree _) t = (t.write p (Text.Utf8.encode text.toList)).2 :=
  rfl

@[simp]
theorem worldAfter_createDirectory :
    worldAfter (FileAccess.createDirectory p : StateM Tree _) t = (t.createDirectory p).2 := rfl

@[simp]
theorem worldAfter_hasKind (kind : Kind) : worldAfter (hasKind kind p : StateM Tree _) t = t := by
  rw [hasKind, worldAfter_bind, answer_kind, worldAfter_kind]
  split <;> rw [worldAfter_pure]

theorem worldAfter_ensureDirectory :
    worldAfter (ensureDirectory p : StateM Tree _) t = (t.createDirectory p).2 := by
  rw [ensureDirectory, worldAfter_bind, worldAfter_createDirectory]
  split
  · rw [worldAfter_pure]
  · rw [worldAfter_bind, isDirectory, worldAfter_hasKind]
    split <;> rw [worldAfter_pure]

end

section

variable {t : Tree} {p : Path}

/-- What is kept when one directory of a list is created is kept when they all are. -/
theorem createLineage_induction {I : Tree → Prop} {ps : List Path}
    (hstep : ∀ p ∈ ps, ∀ t, I t → I (t.createDirectory p).2) (h : I t) :
    I (worldAfter (createLineage ps : StateM Tree _) t) := by
  induction ps generalizing t with
  | nil => exact h
  | cons p ps ih =>
    obtain ⟨hp, hps⟩ := List.forall_mem_cons.1 hstep
    have hfirst := hp t h
    rw [createLineage, worldAfter_bind, worldAfter_ensureDirectory]
    split
    · rwa [worldAfter_pure]
    · split
      · have habove := ih hps hfirst
        rw [worldAfter_bind]
        split
        · rw [worldAfter_ensureDirectory]
          exact hp _ habove
        · rwa [worldAfter_pure]
      · rwa [worldAfter_pure]

theorem readies_createLineage {qs : List Path} (hqs : ∀ q ∈ qs, Leads q p) (hs : t.Sound)
    (hp : (t.trail true p).settled = true) :
    Readies t (worldAfter (createLineage qs : StateM Tree _) t) p :=
  createLineage_induction (I := fun t' => Readies t t' p)
    (fun q hq _ h => h.trans (readies_createDirectory h.sound (hqs q hq) h.settled)) (.refl hs hp)

/-- Creating the directories above a path only readies its place. -/
theorem readies_createDirectories {q : Path} (hq : p.parent? = some q) (hs : t.Sound)
    (hp : (t.trail true p).settled = true) :
    Readies t (worldAfter (createDirectories q : StateM Tree _) t) p :=
  readies_createLineage (fun _ hr => leads_of_mem_lineage (Path.parent?_cases hq) _ hr) hs hp

end

end Tree

end TypeLoom.Files
