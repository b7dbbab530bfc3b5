import TypeLoom.Proofs.Plugins.Discovery

/-!
# Schemas that stand

Main statements: from a tree in which directories were created and files were written, the same schema
is loaded as before, if it can still be searched for and none of the files that are found was written;
and none was if nothing was written below the input and no link leads out of it.
-/

namespace TypeLoom.Plugins

open Files Files.Tree Pipeline

namespace SchemaSource

variable {s : SchemaSource} {t T : Tree} {ws files : List Path}

/-- The same files are found if none of them was written. -/
theorem files_stands {old : List Path} (hs : t.Sound) (ht : t.Tidy) (h : Writes T ws t T)
    (hold : answer (s.files : Action (StateM Tree) _).run t = .ok old)
    (hfiles : answer (s.files : Action (StateM Tree) _).run T = .ok files)
    (hclear : Clear T (led T ws) files) : old = files := by
  rw [answer_files] at hold hfiles
  split at hold
  · rename_i hkind
    rw [h.later.kind_file hkind] at hfiles
    exact Except.ok.inj (hold.symm.trans hfiles)
  · rename_i hkind
    obtain ⟨place, hplace⟩ := kind_directory_iff.mp hkind
    rw [canonical_of_present hplace] at hold
    rw [h.later.kind_directory hkind, canonical_of_present (h.later.directory_trail hplace)] at hfiles
    exact filesBelow_unique hs (grown_refl (fun _ => False) t) (h.grown ht)
      (leadsAlike_of_later h.later) hold (clear_nothing t old) hfiles hclear
  · cases hold

/-- The same schema is loaded if none of its files was written. -/
theorem load_stands {d : Schema.Document} (hs : t.Sound) (ht : t.Tidy) (h : Writes T ws t T)
    (hload : answer (s.load : Action (StateM Tree) _).run t = .ok d)
    (hfiles : answer (s.files : Action (StateM Tree) _).run T = .ok files)
    (hclear : Clear T (led T ws) files) :
    answer (s.load : Action (StateM Tree) _).run T = .ok d := by
  rw [answer_load] at hload ⊢
  cases hold : answer (s.files : Action (StateM Tree) _).run t with
  | error e =>
    rw [hold] at hload
    cases hload
  | ok old =>
    obtain rfl := files_stands hs ht h hold hfiles hclear
    have hread : ∀ p ∈ old, answer (readSource p : Action (StateM Tree) _).run T =
        answer (readSource p : Action (StateM Tree) _).run t := by
      intro p hp
      obtain ⟨place, content, htrail⟩ := kind_file_iff.mp (kind_of_files hold p hp).1
      obtain ⟨content', htrail'⟩ := h.later.file_trail htrail
      have hkept := kept_of_trail_eq (h.kept_of_free htrail (hclear p hp place content' htrail'))
      rw [answer_readSource, answer_readSource, answer_readText, answer_readText, hkept.kind,
        hkept.read]
    rw [hold] at hload
    rw [hfiles]
    exact (congrArg (· >>= documentOf) (mapM_congr hread)).trans hload

/-! ### Files that were written elsewhere -/

/-- A place at which or below which no link stands, and to which or below which none of some paths
leads. -/
structure Spared (T : Tree) (ws : List Path) (place : Place) : Prop where
  unlinked : ∀ x ∈ T.entries, place <+: x.1 → ∀ target, x.2 ≠ .link target
  unwritten : ∀ w ∈ ws, ∀ q ∈ (T.trail true w).target?, ¬place <+: q

def isLink : Entry → Bool
  | .link _ => true
  | _ => false

theorem isLink_eq_false_iff {e : Entry} : isLink e = false ↔ ∀ target, e ≠ .link target := by
  cases e <;> simp [isLink]

instance (e : Entry) : Decidable (∀ target, e ≠ .link target) :=
  decidable_of_iff (isLink e = false) isLink_eq_false_iff

instance (T : Tree) (ws : List Path) (place : Place) : Decidable (Spared T ws place) :=
  decidable_of_iff
    ((∀ x ∈ T.entries, place <+: x.1 → ∀ target, x.2 ≠ .link target) ∧
      ∀ w ∈ ws, ∀ q ∈ (T.trail true w).target?, ¬place <+: q)
    ⟨fun ⟨hunlinked, hunwritten⟩ => ⟨hunlinked, hunwritten⟩, fun h => ⟨h.unlinked, h.unwritten⟩⟩

/-- What a search finds stands below the directory, if there is no link in it. -/
theorem place_of_filesBelow {depth : Nat} {ancestors : List Ancestor} {dir : Path}
    {root place : Place} (ht : T.Tidy)
    (hlinks : ∀ x ∈ T.entries, root <+: x.1 → ∀ target, x.2 ≠ .link target)
    (hdir : T.trail true dir = .present place .directory) (hroot : root <+: place)
    (hok : answer (s.filesBelow depth ancestors dir : Action (StateM Tree) _).run T = .ok files) :
    ∀ p ∈ files, ∀ q content, T.trail true p = .present q (.file content) → root <+: q := by
  induction depth generalizing ancestors dir place files with
  | zero => cases hok
  | succ depth ih =>
    obtain ⟨place', found, hplace, hfound, rfl⟩ := filesBelow_ok hok
    rw [hdir] at hplace
    cases hplace
    intro p hp q content htrail
    obtain ⟨name, hname, hp⟩ := List.mem_flatMap.mp hp
    replace hname := (List.mergeSort_perm _ _).mem_iff.mp hname
    obtain ⟨e, he⟩ := Option.ne_none_iff_exists'.mp (at?_ne_none_of_mem_namesIn hname)
    have hbelow : root <+: place ++ [name] := hroot.trans (List.prefix_append place [name])
    have hlink := hlinks _ (mem_entries_of_at? he (by simp)) hbelow
    have hjoin := trail_join hdir (ht.proper_of_mem_namesIn hname) he hlink
    replace hfound := hfound name hname
    rw [answer_filesAt] at hfound
    cases e with
    | link target => exact absurd rfl (hlink target)
    | file old =>
      rw [kind_file_iff.mpr ⟨_, _, hjoin⟩] at hfound
      rw [← Except.ok.inj hfound] at hp
      split at hp
      · rw [List.mem_singleton.mp hp, hjoin] at htrail
        cases htrail
        exact hbelow
      · cases hp
    | directory =>
      rw [kind_directory_iff.mpr ⟨_, hjoin⟩, canonical_of_present hjoin] at hfound
      dsimp only at hfound
      split at hfound
      · cases hfound
      · exact ih hjoin hbelow hfound p hp q content htrail

/-- None of the files of a source was written if nothing was written at its place or below it. -/
theorem clear_of_spared (ht : T.Tidy) {place : Place} {e : Entry}
    (hplace : T.trail true s.path = .present place e) (hspared : Spared T ws place)
    (hfiles : answer (s.files : Action (StateM Tree) _).run T = .ok files) :
    Clear T (led T ws) files := by
  rw [answer_files] at hfiles
  intro p hp q content htrail ⟨w, hw, _, hled⟩
  refine hspared.unwritten w hw q (by rw [hled]; rfl) ?_
  split at hfiles
  · rw [← Except.ok.inj hfiles] at hp
    rw [List.mem_singleton.mp hp, hplace] at htrail
    cases htrail
    exact List.prefix_refl _
  · rename_i hkind
    obtain ⟨place', hplace'⟩ := kind_directory_iff.mp hkind
    rw [hplace] at hplace'
    cases hplace'
    rw [canonical_of_present hplace] at hfiles
    exact place_of_filesBelow ht hspared.unlinked hplace (List.prefix_refl place) hfiles p hp q content
      htrail
  · cases hfiles

end SchemaSource

end TypeLoom.Plugins
