import Mathlib.Data.List.Nodup
import Mathlib.Data.String.Basic
import TypeLoom.Proofs.Declaration.References

/-!
# The order of what a file imports

Paths and the names from each of them are in strictly ascending order however they were added. So
the dependencies of a file are known from what it imports, and no name comes twice from one path.
-/

namespace TypeLoom.Declaration

/-- Names in strictly ascending order. -/
def Ascending (ns : List String) : Prop := ns.Pairwise (· < ·)

/-- A name that is neither before nor at another one is after it. -/
theorem lt_of_not_lt {name n : String} (hlt : ¬name < n) (hne : ¬(name == n) = true) : n < name :=
  lt_of_le_of_ne (not_lt.mp hlt) fun h => hne (beq_iff_eq.mpr h.symm)

theorem Ascending.insertName {ns : List String} (h : Ascending ns) (name : String) :
    Ascending (insertName name ns) := by
  unfold Ascending at h ⊢
  fun_induction Declaration.insertName name ns with
  | case1 => exact List.pairwise_singleton _ _
  | case2 n ns hlt =>
    refine List.pairwise_cons.mpr ⟨?_, h⟩
    intro m hm
    rcases List.mem_cons.mp hm with rfl | hm
    · exact hlt
    · exact hlt.trans (List.rel_of_pairwise_cons h hm)
  | case3 n ns hlt heq => exact h
  | case4 n ns hlt hne ih =>
    obtain ⟨hn, hns⟩ := List.pairwise_cons.mp h
    refine List.pairwise_cons.mpr ⟨?_, ih hns⟩
    intro m hm
    rcases mem_insertName.mp hm with rfl | hm
    · exact lt_of_not_lt hlt hne
    · exact hn m hm

theorem Ascending.nodup {ns : List String} (h : Ascending ns) : ns.Nodup :=
  List.Pairwise.imp (fun hlt => ne_of_lt hlt) h

/-- Ascending lists with the same members are one list. -/
theorem Ascending.ext {ns ms : List String} (hn : Ascending ns) (hm : Ascending ms)
    (h : ∀ a, a ∈ ns ↔ a ∈ ms) : ns = ms :=
  List.Perm.eq_of_pairwise (fun _ _ _ _ hab hba => absurd hba (lt_asymm hab)) hn hm
    ((List.perm_ext_iff_of_nodup hn.nodup hm.nodup).mpr h)

namespace Dependencies

variable {d e : Dependencies}

/-- Paths and names are in strictly ascending order. -/
structure Ordered (d : Dependencies) : Prop where
  paths : d.entries.Pairwise fun e f => e.1 < f.1
  names : ∀ e ∈ d.entries, Ascending e.2

theorem ordered_empty : Ordered empty := ⟨List.Pairwise.nil, nofun⟩

/-- The paths of an entry list to which a name was added. -/
theorem path_of_mem_addEntry {path name : String} {entries : List (String × List String)}
    {f : String × List String} (hf : f ∈ addEntry path name entries) :
    f.1 = path ∨ ∃ g ∈ entries, f.1 = g.1 := by
  fun_induction addEntry path name entries with
  | case1 =>
    obtain rfl := List.mem_singleton.mp hf
    exact Or.inl rfl
  | case2 p ns rest hlt =>
    rcases List.mem_cons.mp hf with rfl | hf
    · exact Or.inl rfl
    · exact Or.inr ⟨f, hf, rfl⟩
  | case3 p ns rest hlt heq =>
    rcases List.mem_cons.mp hf with rfl | hf
    · exact Or.inr ⟨_, List.mem_cons_self, rfl⟩
    · exact Or.inr ⟨f, List.mem_cons_of_mem _ hf, rfl⟩
  | case4 p ns rest hlt hne ih =>
    rcases List.mem_cons.mp hf with rfl | hf
    · exact Or.inr ⟨_, List.mem_cons_self, rfl⟩
    · rcases ih hf with h | ⟨g, hg, h⟩
      · exact Or.inl h
      · exact Or.inr ⟨g, List.mem_cons_of_mem _ hg, h⟩

theorem Ordered.add (h : d.Ordered) (path name : String) : (d.add path name).Ordered := by
  obtain ⟨entries⟩ := d
  obtain ⟨hpaths, hnames⟩ := h
  unfold Dependencies.add
  dsimp only at hpaths hnames ⊢
  fun_induction addEntry path name entries with
  | case1 =>
    refine ⟨List.pairwise_singleton _ _, ?_⟩
    simp [Ascending]
  | case2 p ns rest hlt =>
    refine ⟨List.pairwise_cons.mpr ⟨?_, hpaths⟩, List.forall_mem_cons.mpr ⟨?_, hnames⟩⟩
    · intro f hf
      rcases List.mem_cons.mp hf with rfl | hf
      · exact hlt
      · exact hlt.trans (List.rel_of_pairwise_cons hpaths hf)
    · exact List.pairwise_singleton _ _
  | case3 p ns rest hlt heq =>
    obtain ⟨hp, hrest⟩ := List.pairwise_cons.mp hpaths
    obtain ⟨hns, hothers⟩ := List.forall_mem_cons.mp hnames
    exact ⟨List.pairwise_cons.mpr ⟨hp, hrest⟩,
      List.forall_mem_cons.mpr ⟨hns.insertName name, hothers⟩⟩
  | case4 p ns rest hlt hne ih =>
    obtain ⟨hp, hrest⟩ := List.pairwise_cons.mp hpaths
    obtain ⟨hns, hothers⟩ := List.forall_mem_cons.mp hnames
    obtain ⟨hpaths', hnames'⟩ := ih hrest hothers
    refine ⟨List.pairwise_cons.mpr ⟨?_, hpaths'⟩, List.forall_mem_cons.mpr ⟨hns, hnames'⟩⟩
    intro f hf
    rcases path_of_mem_addEntry hf with hpath | ⟨g, hg, hpath⟩
    · exact hpath ▸ lt_of_not_lt hlt hne
    · exact hpath ▸ hp g hg

theorem Ordered.erase (h : d.Ordered) (path : String) : (d.erase path).Ordered :=
  ⟨h.paths.filter _, fun f hf => h.names f (List.mem_of_mem_filter hf)⟩

theorem Ordered.paths_nodup (h : d.Ordered) : (d.entries.map (·.1)).Nodup :=
  List.pairwise_map.mpr (h.paths.imp fun hlt => ne_of_lt hlt)

/-- The names of one path stand in one entry. -/
theorem Ordered.eq_of_path (h : d.Ordered) {f g : String × List String} (hf : f ∈ d.entries)
    (hg : g ∈ d.entries) (hpath : f.1 = g.1) : f = g :=
  List.inj_on_of_nodup_map h.paths_nodup hf hg hpath

/-- Dependencies are known from what is imported from where. -/
theorem Ordered.ext (hd : d.Ordered) (he : e.Ordered) (hdt : d.Tight) (het : e.Tight)
    (h : ∀ path name, d.Has path name ↔ e.Has path name) : d = e := by
  -- An entry of one is an entry of the other, since both list the names of its path in order.
  have hsub : ∀ {a b : Dependencies}, a.Ordered → b.Ordered → a.Tight →
      (∀ path name, a.Has path name ↔ b.Has path name) → ∀ f ∈ a.entries, f ∈ b.entries := by
    intro a b ha hb hat hab f hf
    obtain ⟨n, hn⟩ := List.exists_mem_of_ne_nil _ (hat f hf)
    obtain ⟨names, hg, -⟩ := (hab f.1 n).mp ⟨f.2, hf, hn⟩
    suffices heq : f.2 = names by rwa [← heq] at hg
    refine (ha.names f hf).ext (hb.names _ hg) fun m => ⟨fun hm => ?_, fun hm => ?_⟩
    · obtain ⟨names', hg', hm'⟩ := (hab f.1 m).mp ⟨f.2, hf, hm⟩
      rwa [(Prod.mk.inj (hb.eq_of_path hg hg' rfl)).2]
    · obtain ⟨names', hf', hm'⟩ := (hab f.1 m).mpr ⟨names, hg, hm⟩
      rwa [congrArg Prod.snd (ha.eq_of_path hf hf' rfl)]
  have hperm : d.entries.Perm e.entries :=
    (List.perm_ext_iff_of_nodup (hd.paths_nodup.of_map _) (he.paths_nodup.of_map _)).mpr
      fun f => ⟨hsub hd he hdt h f, hsub he hd het (fun p n => (h p n).symm) f⟩
  have hentries : d.entries = e.entries :=
    List.Perm.eq_of_pairwise (fun _ _ _ _ hab hba => absurd hba (lt_asymm hab)) hd.paths he.paths
      hperm
  cases d
  cases e
  exact congrArg _ hentries

end Dependencies

end TypeLoom.Declaration
