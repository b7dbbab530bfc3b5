import TypeLoom.Proofs.Files.Laid
import TypeLoom.Proofs.Plugins.Congruence
import TypeLoom.Proofs.Plugins.DryRun

/-!
# Phases on files in another order

Plugins that work on files do so one after the other, each in the tree that the others left. Main
statements: if no operation of the file system fails, they report the same in whichever order they
do so; before a schema is read and when declarations are written they leave the same tree.
-/

namespace TypeLoom.Plugins

open Files Files.Tree Pipeline Collected
open ResolverModule (Parser)

/-! ### Items and what they are taken to -/

section

variable {α β : Type} {R : α → β → Prop} {as : List α} {bs cs : List β}

theorem forall₂_exists (h : List.Forall₂ R as bs) {a : α} (ha : a ∈ as) : ∃ b ∈ bs, R a b := by
  induction h with
  | nil => cases ha
  | cons hab _ ih =>
    rcases List.mem_cons.mp ha with rfl | hmem
    · exact ⟨_, List.mem_cons_self, hab⟩
    · obtain ⟨b, hb, hR⟩ := ih hmem
      exact ⟨b, List.mem_cons_of_mem _ hb, hR⟩

theorem forall₂_unique (hb : List.Forall₂ R as bs) (hc : List.Forall₂ R as cs)
    (h : ∀ a ∈ as, ∀ b c, R a b → R a c → b = c) : bs = cs := by
  induction hb generalizing cs with
  | nil =>
    cases hc
    rfl
  | cons hab _ ih =>
    cases hc with
    | cons hac hc =>
      obtain ⟨ha, hrest⟩ := List.forall_mem_cons.mp h
      rw [ha _ _ hab hac, ih hc hrest]

end

/-! ### Reports in another order -/

section

variable {act : LoadedPlugin (StateM Tree) → Action (StateM Tree) Report}
  {ls ks : List (LoadedPlugin (StateM Tree))} {S : Tree → Prop} {t t' : Tree} {rs : List Report}

/-- Plugins that succeed keep to the trees of which `S` holds. -/
def Keep (S : Tree → Prop) (act : LoadedPlugin (StateM Tree) → Action (StateM Tree) Report)
    (ls : List (LoadedPlugin (StateM Tree))) : Prop :=
  ∀ l ∈ ls, ∀ u r, S u → answer (act l).run u = .ok r → S (worldAfter (act l).run u)

/-- A plugin that acts answers in a tree that the others kept to. -/
def Answers (S : Tree → Prop) (act : LoadedPlugin (StateM Tree) → Action (StateM Tree) Report)
    (l : LoadedPlugin (StateM Tree)) (x : Except Failure Report) : Prop :=
  ∃ u, S u ∧ answer (act l).run u = x

theorem answers_of_gather (hkeep : Keep S act ls) (hS : S t) (h : (gather act ls t).1 = .ok rs) :
    List.Forall₂ (fun l r => Answers S act l (.ok r)) ls rs ∧ S (gather act ls t).2 := by
  induction ls generalizing t rs with
  | nil =>
    cases h
    exact ⟨.nil, hS⟩
  | cons l ls ih =>
    obtain ⟨hl, hls⟩ := List.forall_mem_cons.mp hkeep
    obtain ⟨r, rest, rfl, ha, hrest, hworld⟩ := gather_ok h
    obtain ⟨hanswers, hlast⟩ := ih hls (hl t r hS ha) hrest
    rw [hworld]
    exact ⟨.cons ⟨t, hS, ha⟩ hanswers, hlast⟩

theorem answers_of_gather_error (hkeep : Keep S act ls) (hS : S t) {e : Failure}
    (h : (gather act ls t).1 = .error e) : ∃ l ∈ ls, Answers S act l (.error e) := by
  induction ls generalizing t with
  | nil => cases h
  | cons l ls ih =>
    obtain ⟨hl, hls⟩ := List.forall_mem_cons.mp hkeep
    rw [gather] at h
    cases ha : answer (act l).run t with
    | error e' =>
      rw [ha] at h
      cases h
      exact ⟨l, List.mem_cons_self, t, hS, ha⟩
    | ok r =>
      rw [ha] at h
      dsimp only at h
      cases hrest : (gather act ls (worldAfter (act l).run t)).1 with
      | error e' =>
        rw [hrest] at h
        cases h
        obtain ⟨k, hk, hanswers⟩ := ih hls (hl t r hS ha) hrest
        exact ⟨k, List.mem_cons_of_mem l hk, hanswers⟩
      | ok rs =>
        rw [hrest] at h
        cases h

/-- In whichever order plugins act, they report the same, or the same plugin fails, if each of them
answers the same in all trees that the others keep to and at most one of them fails without the file
system failing. -/
theorem gather_perm {E : Failure → Prop} (hperm : ks.Perm ls) (hkeep : Keep S act ls)
    (hact : ∀ l ∈ ls, ∀ u u', S u → S u' →
      Alike E Eq (answer (act l).run u) (answer (act l).run u'))
    (hone : ∀ l ∈ ls, ∀ k ∈ ls, FileBound (act l) ∨ FileBound (act k) ∨ l = k) (hS : S t)
    (hS' : S t') :
    Alike E (fun rs rs' => rs'.Perm rs) (gather act ls t).1 (gather act ks t').1 := by
  have hkeep' : Keep S act ks := fun l hl => hkeep l (hperm.mem_iff.mp hl)
  have hagree : ∀ l ∈ ls, ∀ x x', Answers S act l x → Answers S act l x' → Alike E Eq x x' := by
    rintro l hl _ _ ⟨u, hu, rfl⟩ ⟨u', hu', rfl⟩
    exact hact l hl u u' hu hu'
  cases h : (gather act ls t).1 with
  | ok rs =>
    have hanswers := (answers_of_gather hkeep hS h).1
    cases h' : (gather act ks t').1 with
    | ok rs' =>
      have hanswers' := (answers_of_gather hkeep' hS' h').1
      obtain ⟨rs'', hall, hrs⟩ := List.perm_comp_forall₂ hperm hanswers
      have hsame : rs' = rs'' := by
        refine forall₂_unique hanswers' hall fun l hl r r' hr hr' => ?_
        have halike := hagree l (hperm.mem_iff.mp hl) _ _ hr hr'
        cases halike with
        | ok h => exact h
      exact .ok (hsame ▸ hrs)
    | error e =>
      obtain ⟨k, hk, hfails⟩ := answers_of_gather_error hkeep' hS' h'
      replace hk := hperm.mem_iff.mp hk
      obtain ⟨r, -, hr⟩ := forall₂_exists hanswers hk
      have halike := hagree k hk _ _ hr hfails
      cases halike with
      | right path problem => exact .right path problem _
  | error e =>
    obtain ⟨l, hl, hfails⟩ := answers_of_gather_error hkeep hS h
    cases h' : (gather act ks t').1 with
    | ok rs' =>
      obtain ⟨r, -, hr⟩ := forall₂_exists (answers_of_gather hkeep' hS' h').1
        (hperm.mem_iff.mpr hl)
      have halike := hagree l hl _ _ hfails hr
      cases halike with
      | left path problem => exact .left path problem _
    | error e' =>
      obtain ⟨k, hk, hfails'⟩ := answers_of_gather_error hkeep' hS' h'
      replace hk := hperm.mem_iff.mp hk
      rcases hone l hl k hk with hbound | hbound | rfl
      · obtain ⟨u, -, hu⟩ := hfails
        obtain ⟨path, problem, rfl⟩ := hbound u e hu
        exact .left path problem _
      · obtain ⟨u, -, hu⟩ := hfails'
        obtain ⟨path, problem, rfl⟩ := hbound u e' hu
        exact .right path problem _
      · have halike := hagree l hl _ _ hfails hfails'
        cases halike with
        | error h => exact .error h
        | left path problem => exact .left path problem _
        | right path problem => exact .right path problem _

/-! ### Trees in another order -/

/-- An action that creates directories for paths, all of them if it succeeds. -/
def Lays (ps : List Path) (x : Action (StateM Tree) Report) : Prop :=
  ∀ u r, u.Sound → answer x.run u = .ok r →
    Laid ps u (worldAfter x.run u) ∧ ∀ p ∈ ps, (worldAfter x.run u).kind p = .ok .directory

theorem lays_of_still {x : Action (StateM Tree) Report} (hx : Still x.run) : Lays [] x := by
  intro u r hs _
  rw [hx u]
  exact ⟨.refl hs [], nofun⟩

theorem lays_prepare (output : Option Output) (c : Context) :
    ∃ ps, Lays ps (prepare output c) := by
  rcases prepare_cases output c with h | ⟨q, h⟩
  · rw [h]
    exact ⟨[], lays_of_still (still_run_pure _)⟩
  · refine ⟨lineage (q.raw.length + 1) q, fun u r hs hr => ?_⟩
    rw [h] at hr ⊢
    rw [(run_reporting _ _ u).2]
    have hready := readied_of_makeDirectories hs (reporting_ok hr).1
    rw [makeDirectories, (run_onFile q _ u).2] at hready ⊢
    refine ⟨.createLineage hs _, fun p hp => ?_⟩
    rcases hready with hempty | hkind
    · rw [lineage, if_pos hempty] at hp
      cases hp
    · exact kind_of_mem_lineage hp hkind

/-- Plugins that create directories for paths, and do not fail. -/
theorem gather_laid {f : LoadedPlugin (StateM Tree) → List Path}
    (hact : ∀ l ∈ ls, Lays (f l) (act l)) (hs : t.Sound) (h : (gather act ls t).1 = .ok rs) :
    Laid (ls.flatMap f) t (gather act ls t).2 ∧
      ∀ p ∈ ls.flatMap f, (gather act ls t).2.kind p = .ok .directory := by
  induction ls generalizing t rs with
  | nil => exact ⟨.refl hs _, nofun⟩
  | cons l ls ih =>
    obtain ⟨hl, hls⟩ := List.forall_mem_cons.mp hact
    obtain ⟨r, rest, -, ha, hrest, hworld⟩ := gather_ok h
    obtain ⟨hlaid, hkind⟩ := hl t r hs ha
    obtain ⟨hlaid', hkind'⟩ := ih hls hlaid.sound hrest
    rw [hworld, List.flatMap_cons]
    refine ⟨(hlaid.mono fun p hp => List.mem_append_left _ hp).trans
      (hlaid'.mono fun p hp => List.mem_append_right _ hp), fun p hp => ?_⟩
    rcases List.mem_append.mp hp with hp | hp
    · exact hlaid'.furnished.later.kind_directory (hkind p hp)
    · exact hkind' p hp

/-- What plugins leave that create directories for paths does not depend on their order. -/
theorem gather_laid_perm {rs' : List Report} (hperm : ks.Perm ls)
    (hact : ∀ l ∈ ls, ∃ ps, Lays ps (act l)) (hs : t.Sound)
    (h : (gather act ls t).1 = .ok rs) (h' : (gather act ks t).1 = .ok rs') :
    Same (gather act ls t).2 (gather act ks t).2 := by
  choose! f hf using hact
  obtain ⟨hlaid, hkind⟩ := gather_laid hf hs h
  obtain ⟨hlaid', hkind'⟩ := gather_laid (fun l hl => hf l (hperm.mem_iff.mp hl)) hs h'
  have hmem : ∀ p, p ∈ ks.flatMap f ↔ p ∈ ls.flatMap f := fun p => (hperm.flatMap_right f).mem_iff
  exact hlaid.same hlaid' (fun p hp => hkind p ((hmem p).mp hp))
    fun p hp => hkind' p ((hmem p).mpr hp)

/-- Plugins that change no tree may be left out. -/
theorem gather_filter {q : LoadedPlugin (StateM Tree) → Bool}
    (hstill : ∀ l ∈ ls, q l = false → Still (act l).run) (h : (gather act ls t).1 = .ok rs) :
    (gather act (ls.filter q) t).2 = (gather act ls t).2 := by
  induction ls generalizing t rs with
  | nil => rfl
  | cons l ls ih =>
    obtain ⟨hl, hls⟩ := List.forall_mem_cons.mp hstill
    obtain ⟨r, rest, -, ha, hrest, hworld⟩ := gather_ok h
    rw [hworld, ← ih hls hrest]
    cases hq : q l with
    | false => rw [List.filter_cons_of_neg (by simp [hq]), hl hq t]
    | true =>
      rw [List.filter_cons_of_pos hq, gather, ha]

/-- Plugins do the same in trees that are the same. -/
theorem gather_congr (hact : ∀ l ∈ ls, Congruent (act l).run) (h : Same t t') :
    (gather act ls t').1 = (gather act ls t).1 ∧ Same (gather act ls t).2 (gather act ls t').2 := by
  induction ls generalizing t t' with
  | nil => exact ⟨rfl, h⟩
  | cons l ls ih =>
    obtain ⟨hl, hls⟩ := List.forall_mem_cons.mp hact
    obtain ⟨hanswer, hworld⟩ := hl t t' h
    rw [gather, gather, hanswer]
    cases answer (act l).run t with
    | error e => exact ⟨rfl, hworld⟩
    | ok r =>
      obtain ⟨hrest, hlast⟩ := ih hls hworld
      dsimp only
      rw [hrest]
      exact ⟨rfl, hlast⟩

end

end TypeLoom.Plugins
