import Mathlib.Data.List.Forall2
import TypeLoom.Plugins.Resolvers
import TypeLoom.Proofs.Files.Lineage
import TypeLoom.Proofs.Text.RoundTrip
import TypeLoom.TypeScript.Syntax

/-!
# Resolver modules that are brought up to date one by one

A module is read, merged and written back. Main statement: if no module path steps up out of a
missing directory and no module stands at or above the place of another, then what becomes of each
module is decided by what it held before all of them, whatever becomes of the others.
-/

namespace TypeLoom.Plugins

open Files Files.Tree Pipeline
open ResolverModule (Parser Update merge)

/-- What is read at a path: a text, or none where nothing stands. -/
def textAt (t : Tree) (p : Path) : Except ReadProblem (Option String) :=
  answer (readTextIfPresent p : ExceptT ReadProblem (StateM Tree) _).run t

theorem answer_isFile (t : Tree) (p : Path) :
    answer (isFile p : StateM Tree Bool) t = decide (t.kind p = .ok .file) := by
  rw [isFile, hasKind, answer_bind, answer_kind]
  cases t.kind p with
  | error e => simp
  | ok k => cases k <;> simp

theorem answer_readText (t : Tree) (p : Path) :
    answer (readText p : ExceptT ReadProblem (StateM Tree) _).run t =
      if t.kind p = .ok .file then
        match t.read p with
        | .error e => .error (.unreadable p e)
        | .ok bytes =>
          match Text.Utf8.decode bytes with
          | .error e => .error (.undecodable p e)
          | .ok cs => .ok (String.ofList cs)
      else .error (.notAFile p) := by
  rw [readText, answer_run_bind, answer_run_lift, worldAfter_run_lift, isFile, worldAfter_hasKind,
    ← isFile, answer_isFile]
  by_cases hk : t.kind p = .ok .file
  · simp only [hk, decide_true, if_true]
    rw [answer_run_bind, answer_run_lift, worldAfter_run_lift, answer_read, worldAfter_read]
    dsimp only
    cases t.read p with
    | error e => rfl
    | ok bytes =>
      dsimp only
      cases Text.Utf8.decode bytes <;> rfl
  · simp only [hk, decide_false]
    rfl

theorem worldAfter_readText (t : Tree) (p : Path) :
    worldAfter (readText p : ExceptT ReadProblem (StateM Tree) _).run t = t := by
  rw [readText, worldAfter_run_bind, answer_run_lift, worldAfter_run_lift, isFile,
    worldAfter_hasKind]
  dsimp only
  split
  · rw [worldAfter_run_bind, answer_run_lift, worldAfter_run_lift, worldAfter_read]
    dsimp only
    split
    · rfl
    · split <;> rfl
  · rfl

theorem textAt_eq (t : Tree) (p : Path) :
    textAt t p =
      match t.kind p with
      | .ok _ => (answer (readText p : ExceptT ReadProblem (StateM Tree) _).run t).map some
      | .error e => if e == .notFound then .ok none else .error (.unreadable p e) := by
  rw [textAt, readTextIfPresent, answer_run_bind, answer_run_lift, worldAfter_run_lift, answer_kind,
    worldAfter_kind]
  dsimp only
  cases t.kind p with
  | ok k =>
    dsimp only
    rw [answer_run_bind]
    cases answer (readText p : ExceptT ReadProblem (StateM Tree) _).run t <;> rfl
  | error e =>
    dsimp only
    split <;> rfl

@[simp]
theorem worldAfter_readTextIfPresent (t : Tree) (p : Path) :
    worldAfter (readTextIfPresent p : ExceptT ReadProblem (StateM Tree) _).run t = t := by
  rw [readTextIfPresent, worldAfter_run_bind, answer_run_lift, worldAfter_run_lift, answer_kind,
    worldAfter_kind]
  dsimp only
  split
  · rw [worldAfter_run_bind, worldAfter_readText]
    split <;> rfl
  · split <;> rfl

theorem textAt_congr {t t' : Tree} {p : Path} (h : Kept t t' p) : textAt t' p = textAt t p := by
  rw [textAt_eq, textAt_eq, answer_readText, answer_readText, h.kind, h.read]

/-- A text that was written is read. -/
theorem textAt_of_trail {t : Tree} {p : Path} {place : Place} {text : String}
    (h : t.trail true p = .present place (.file (Text.Utf8.encode text.toList))) :
    textAt t p = .ok (some text) := by
  have hkind : t.kind p = .ok .file := by
    rw [kind, locate_eq, h]
    rfl
  rw [textAt_eq, answer_readText, hkind, read_of_trail h, if_pos rfl]
  dsimp only
  rw [Text.Utf8.decode_encode]
  dsimp only
  rw [String.ofList_toList]
  rfl

/-! ### One module -/

/-- Creates the directories above a module. -/
def readyModule (u : Update) : ExceptT ModuleProblem (StateM Tree) Unit :=
  match u.module.parent? with
  | some parent => onModule u.module (createDirectories parent)
  | none => pure ()

/-- Writes the text of a module. -/
def replaceModule (u : Update) (text : String) : ExceptT ModuleProblem (StateM Tree) Bool := do
  readyModule u
  onModule u.module (writeText u.module text)
  return true

/-- What happens to a module by itself. -/
theorem updateModule_cases [Parser] (u : Update) (t : Tree) :
    (∃ e, textAt t u.module = .error e ∧
      answer (updateModule u : ExceptT ModuleProblem (StateM Tree) _).run t = .error (.unread e) ∧
      worldAfter (updateModule u : ExceptT ModuleProblem (StateM Tree) _).run t = t) ∨
    (∃ existing e, textAt t u.module = .ok existing ∧ merge existing u = .error e ∧
      answer (updateModule u : ExceptT ModuleProblem (StateM Tree) _).run t =
        .error (.unmerged u.module e) ∧
      worldAfter (updateModule u : ExceptT ModuleProblem (StateM Tree) _).run t = t) ∨
    (∃ merged, textAt t u.module = .ok (some merged) ∧ merge (some merged) u = .ok merged ∧
      answer (updateModule u : ExceptT ModuleProblem (StateM Tree) _).run t = .ok false ∧
      worldAfter (updateModule u : ExceptT ModuleProblem (StateM Tree) _).run t = t) ∨
    ∃ existing merged, textAt t u.module = .ok existing ∧ merge existing u = .ok merged ∧
      existing ≠ some merged ∧
      answer (updateModule u : ExceptT ModuleProblem (StateM Tree) _).run t =
        answer (replaceModule u merged).run t ∧
      worldAfter (updateModule u : ExceptT ModuleProblem (StateM Tree) _).run t =
        worldAfter (replaceModule u merged).run t := by
  rw [updateModule, answer_run_bind, worldAfter_run_bind, answer_run_lift, worldAfter_run_lift,
    ← textAt, worldAfter_readTextIfPresent]
  dsimp only
  cases htext : textAt t u.module with
  | error e => exact .inl ⟨e, rfl, rfl, rfl⟩
  | ok existing =>
    refine .inr ?_
    dsimp only
    cases hmerge : merge existing u with
    | error e => exact .inl ⟨existing, e, rfl, hmerge, rfl, rfl⟩
    | ok merged =>
      refine .inr ?_
      dsimp only
      by_cases hsame : existing = some merged
      · subst hsame
        rw [if_pos (by simp)]
        exact .inl ⟨merged, rfl, hmerge, rfl, rfl⟩
      · rw [if_neg (by simpa using hsame)]
        refine .inr ⟨existing, merged, rfl, hmerge, hsame, ?_⟩
        unfold replaceModule readyModule
        cases u.module.parent? <;> exact ⟨rfl, rfl⟩

theorem run_onModule {α : Type} (p : Path) (x : StateM Tree (Except OsError α)) (t : Tree) :
    answer (onModule p x).run t = (answer x t).mapError (.unwritten p) ∧
      worldAfter (onModule p x).run t = worldAfter x t := by
  unfold onModule
  refine run_rethrow x (fun _ => ?_) (fun _ => ?_) t <;> rfl

/-- Only the place that a path is meant for was filled, and missing directories above it. -/
structure Settles (t t' : Tree) (p : Path) : Prop where
  sound : t'.Sound
  fills : Fills (above (t.trail true p)) (spot (t.trail true p)) t t'
  target : (t'.trail true p).target? = (t.trail true p).target?
  settled : (t'.trail true p).settled = true

theorem Settles.refl {t : Tree} {p : Path} (hs : t.Sound) (hp : (t.trail true p).settled = true) :
    Settles t t p := ⟨hs, .refl _ _ t, rfl, hp⟩

/-- Writing to a path whose directories were readied. -/
theorem settles_of_readies {t t' : Tree} {p : Path} (h : Readies t t' p) (content : List UInt8) :
    Settles t (t'.write p content).2 p ∧
      ((t'.write p content).1 = .ok () →
        ∃ place, (t'.write p content).2.trail true p = .present place (.file content)) := by
  have hdirs : Fills (above (t.trail true p)) (spot (t.trail true p)) t t' :=
    h.fills.mono (fun _ hq => hq) fun _ hq => hq.elim
  rcases hw : t'.write p content with ⟨r, t''⟩
  cases r with
  | error e =>
    rw [write_error hw]
    exact ⟨⟨h.sound, hdirs, h.target, h.settled⟩, fun hr => by cases hr⟩
  | ok =>
    obtain ⟨hsound, hfills, place, hplace, htrail⟩ := write_ok h.sound hw
    have hspot : spot (t'.trail true p) = spot (t.trail true p) := by
      unfold spot
      rw [h.target]
    rw [above_congr h.target, hspot] at hfills
    refine ⟨⟨hsound, hdirs.trans hfills, ?_, ?_⟩, fun _ => ⟨place, htrail⟩⟩
    · rw [htrail, ← h.target, hplace]
      rfl
    · rw [htrail]
      rfl

/-- The directories above a module are created, or one of them could not be. -/
theorem readyModule_readies {t : Tree} {u : Update} (hs : t.Sound)
    (hp : (t.trail true u.module).settled = true) :
    Readies t (worldAfter (readyModule u).run t) u.module ∧
      ((∃ e, answer (readyModule u).run t = .error (.unwritten u.module e)) ∨
        answer (readyModule u).run t = .ok ()) := by
  unfold readyModule
  cases hparent : u.module.parent? with
  | none => exact ⟨.refl hs hp, .inr rfl⟩
  | some parent =>
    dsimp only
    rw [(run_onModule _ _ t).1, (run_onModule _ _ t).2]
    refine ⟨readies_createDirectories hparent hs hp, ?_⟩
    cases answer (createDirectories parent : StateM Tree _) t with
    | error e => exact .inl ⟨e, rfl⟩
    | ok => exact .inr rfl

/-- A module is written, or its directory or the file itself could not be. -/
theorem replaceModule_settles {t : Tree} {u : Update} (text : String) (hs : t.Sound)
    (hp : (t.trail true u.module).settled = true) :
    Settles t (worldAfter (replaceModule u text).run t) u.module ∧
      ((∃ e, answer (replaceModule u text).run t = .error (.unwritten u.module e)) ∨
        answer (replaceModule u text).run t = .ok true ∧
          textAt (worldAfter (replaceModule u text).run t) u.module = .ok (some text)) := by
  obtain ⟨hready, hanswer⟩ := readyModule_readies hs hp
  obtain ⟨hsettles, hwritten⟩ := settles_of_readies hready (Text.Utf8.encode text.toList)
  rw [replaceModule, answer_run_bind, worldAfter_run_bind]
  generalize worldAfter (readyModule u).run t = t' at hready hsettles hwritten
  rcases hanswer with ⟨e, ha⟩ | ha
  · rw [ha]
    exact ⟨⟨hready.sound, hready.fills.mono (fun _ h => h) fun _ h => h.elim, hready.target,
      hready.settled⟩, .inl ⟨e, rfl⟩⟩
  · rw [ha]
    dsimp only
    rw [answer_run_bind, worldAfter_run_bind, (run_onModule _ _ t').1, (run_onModule _ _ t').2,
      answer_writeText, worldAfter_writeText]
    cases hr : (t'.write u.module (Text.Utf8.encode text.toList)).1 with
    | error o => exact ⟨hsettles, .inl ⟨o, rfl⟩⟩
    | ok =>
      obtain ⟨place, htrail⟩ := hwritten hr
      exact ⟨hsettles, .inr ⟨rfl, textAt_of_trail htrail⟩⟩

/-- What became of a module from one tree to another. -/
def Fate [Parser] (t t' : Tree) (u : Update) (r : Except ModuleProblem Bool) : Prop :=
  match textAt t u.module with
  | .error e => r = .error (.unread e) ∧ Kept t t' u.module
  | .ok existing =>
    match merge existing u with
    | .error e => r = .error (.unmerged u.module e) ∧ Kept t t' u.module
    | .ok merged =>
      (∃ e, r = .error (.unwritten u.module e)) ∨
        r = .ok (existing != some merged) ∧ textAt t' u.module = .ok (some merged)

/-- A module that is brought up to date by itself. -/
theorem updateModule_fate [Parser] {t : Tree} {u : Update} (hs : t.Sound)
    (hp : (t.trail true u.module).settled = true) :
    Settles t (worldAfter (updateModule u : ExceptT ModuleProblem (StateM Tree) _).run t) u.module ∧
      Fate t (worldAfter (updateModule u : ExceptT ModuleProblem (StateM Tree) _).run t) u
        (answer (updateModule u : ExceptT ModuleProblem (StateM Tree) _).run t) := by
  unfold Fate
  rcases updateModule_cases u t with ⟨e, htext, ha, hw⟩ | ⟨existing, e, htext, hmerge, ha, hw⟩ |
    ⟨merged, htext, hmerge, ha, hw⟩ | ⟨existing, merged, htext, hmerge, hne, ha, hw⟩
  · rw [ha, hw, htext]
    exact ⟨.refl hs hp, rfl, .refl t _⟩
  · rw [ha, hw, htext]
    dsimp only
    rw [hmerge]
    exact ⟨.refl hs hp, rfl, .refl t _⟩
  · rw [ha, hw, htext]
    dsimp only
    rw [hmerge]
    exact ⟨.refl hs hp, .inr ⟨by simp, rfl⟩⟩
  · rw [ha, hw, htext]
    dsimp only
    rw [hmerge]
    obtain ⟨hsettles, hfate⟩ := replaceModule_settles merged hs hp
    refine ⟨hsettles, hfate.imp_right fun ⟨hr, htext'⟩ => ⟨hr.trans ?_, htext'⟩⟩
    simpa using hne

/-! ### All modules -/

/-- Two paths that are meant for places of which none is at or above the other. -/
def Apart (t : Tree) (p q : Path) : Prop :=
  ∀ a b, (t.trail true p).target? = some a → (t.trail true q).target? = some b →
    ¬ a <+: b ∧ ¬ b <+: a

theorem Apart.symm {t : Tree} {p q : Path} (h : Apart t p q) : Apart t q p :=
  fun a b ha hb => (h b a hb ha).symm

/-- What is done for one path leaves paths apart from it alone. -/
theorem Settles.kept {t t' : Tree} {p q : Path} (h : Settles t t' p) (hs : t.Sound)
    (hq : (t.trail true q).settled = true) (hapart : Apart t p q) :
    Kept t t' q ∧ (t'.trail true q).target? = (t.trail true q).target? ∧
      (t'.trail true q).settled = true := by
  refine kept_of_fills hs h.fills hq fun b hb => ⟨?_, fun a ha => (hapart a b ha hb).1⟩
  rintro ⟨a, ha, hprefix, -⟩
  exact (hapart a b ha hb).2 hprefix

theorem Apart.congr {t t' : Tree} {p q : Path} (h : Apart t p q)
    (hp : (t'.trail true p).target? = (t.trail true p).target?)
    (hq : (t'.trail true q).target? = (t.trail true q).target?) : Apart t' p q := by
  unfold Apart
  rw [hp, hq]
  exact h

/-- A fate is decided by what a module held before the others were brought up to date. -/
theorem Fate.of_kept [Parser] {t t₁ t₂ t' : Tree} {u : Update} {r : Except ModuleProblem Bool}
    (h : Fate t₁ t₂ u r) (hbefore : Kept t t₁ u.module) (hafter : Kept t₂ t' u.module) :
    Fate t t' u r := by
  unfold Fate at h ⊢
  rw [textAt_congr hbefore] at h
  cases htext : textAt t u.module with
  | error e =>
    rw [htext] at h
    exact ⟨h.1, (hbefore.trans h.2).trans hafter⟩
  | ok existing =>
    rw [htext] at h
    dsimp only at h ⊢
    cases hmerge : merge existing u with
    | error e =>
      rw [hmerge] at h
      exact ⟨h.1, (hbefore.trans h.2).trans hafter⟩
    | ok merged =>
      rw [hmerge] at h
      exact h.imp_right fun ⟨hr, ht⟩ => ⟨hr, (textAt_congr hafter).trans ht⟩

/-- The modules that changed. -/
def changed (us : List Update) (rs : List (Except ModuleProblem Bool)) : List Path :=
  (us.zip rs).filterMap fun x => if x.2 matches .ok true then some x.1.module else none

/-- Why the others were not brought up to date. -/
def failures (rs : List (Except ModuleProblem Bool)) : List ModuleProblem :=
  rs.filterMap fun | .error e => some e | .ok _ => none

/-- A report to which what became of modules was added. -/
def tallied (r : Report) (us : List Update) (rs : List (Except ModuleProblem Bool)) : Report :=
  { r with
    mergedModules := r.mergedModules ++ changed us rs
    moduleProblems := r.moduleProblems ++ failures rs }

theorem answer_addUpdate [Parser] (r : Report) (u : Update) (t : Tree) :
    answer (addUpdate r u : StateM Tree _) t =
      tallied r [u] [answer (updateModule u : ExceptT ModuleProblem (StateM Tree) _).run t] := by
  rw [addUpdate, answer_bind]
  rcases answer (updateModule u : ExceptT ModuleProblem (StateM Tree) _).run t with e | b
  · simp [tallied, changed, failures]
  · cases b <;> simp [tallied, changed, failures]

theorem worldAfter_addUpdate [Parser] (r : Report) (u : Update) (t : Tree) :
    worldAfter (addUpdate r u : StateM Tree _) t =
      worldAfter (updateModule u : ExceptT ModuleProblem (StateM Tree) _).run t := by
  rw [addUpdate, worldAfter_bind]
  split <;> rfl

theorem tallied_tallied (r : Report) (u : Update) (x : Except ModuleProblem Bool) (us : List Update)
    (rs : List (Except ModuleProblem Bool)) :
    tallied (tallied r [u] [x]) us rs = tallied r (u :: us) (x :: rs) := by
  rcases x with e | b
  · simp [tallied, changed, failures]
  · cases b <;> simp [tallied, changed, failures]

/-- Modules that are brought up to date one after the other do not meet. -/
theorem foldlM_addUpdate_fates [Parser] {us : List Update} {t : Tree} (hs : t.Sound)
    (hsettled : ∀ u ∈ us, (t.trail true u.module).settled = true)
    (hapart : us.Pairwise fun u v => Apart t u.module v.module) (r : Report) :
    ∃ rs, List.Forall₂ (Fate t (worldAfter (us.foldlM addUpdate r : StateM Tree _) t)) us rs ∧
      answer (us.foldlM addUpdate r : StateM Tree _) t = tallied r us rs ∧
      (worldAfter (us.foldlM addUpdate r : StateM Tree _) t).Sound ∧
      ∀ q, (t.trail true q).settled = true → (∀ u ∈ us, Apart t u.module q) →
        Kept t (worldAfter (us.foldlM addUpdate r : StateM Tree _) t) q := by
  induction us generalizing t r with
  | nil => exact ⟨[], .nil, by simp [tallied, changed, failures], hs, fun q _ _ => .refl t q⟩
  | cons u us ih =>
    obtain ⟨hu, hus⟩ := List.forall_mem_cons.1 hsettled
    obtain ⟨hfirst, hrest⟩ := List.pairwise_cons.1 hapart
    obtain ⟨hsettles, hfate⟩ := updateModule_fate hs hu
    rw [List.foldlM_cons, answer_bind, worldAfter_bind, answer_addUpdate, worldAfter_addUpdate]
    generalize answer (updateModule u : ExceptT ModuleProblem (StateM Tree) _).run t = x at hfate ⊢
    generalize worldAfter (updateModule u : ExceptT ModuleProblem (StateM Tree) _).run t = t₁
      at hsettles hfate ⊢
    have hother (v : Update) (hv : v ∈ us) := hsettles.kept hs (hus v hv) (hfirst v hv)
    obtain ⟨rs, hfates, hanswer, hsound, hkept⟩ := ih hsettles.sound (fun v hv => (hother v hv).2.2)
      (hrest.imp_of_mem fun hv hw h => h.congr (hother _ hv).2.1 (hother _ hw).2.1)
      (tallied r [u] [x])
    refine ⟨x :: rs, .cons ?_ ?_, hanswer.trans (tallied_tallied r u x us rs), hsound,
      fun q hq hq' => ?_⟩
    · refine hfate.of_kept (.refl t _) (hkept _ hsettles.settled fun v hv => ?_)
      exact (hfirst v hv).symm.congr (hother v hv).2.1 hsettles.target
    · have hboth := (List.forall₂_and_left us rs).2 ⟨fun v hv => (hother v hv).1, hfates⟩
      exact hboth.imp fun v y h => h.2.of_kept h.1 (.refl _ _)
    · obtain ⟨hqu, hqus⟩ := List.forall_mem_cons.1 hq'
      obtain ⟨hk, htarget, hsettled'⟩ := hsettles.kept hs hq hqu
      exact hk.trans (hkept q hsettled' fun v hv => (hqus v hv).congr (hother v hv).2.1 htarget)

/-- A path that steps up out of a missing directory is read as if nothing stood at its place, so a
module that is up to date is replaced there. -/
example :
    let text := "import \x7b Q \x7d from 'q';\nexport const resolvers: Q = \x7b/* mine */\x7d;\n"
    let t : Tree :=
      ⟨["p"], [(["p"], .directory), (["p", "Q.ts"], .file (Text.Utf8.encode text.toList))]⟩
    let u : Update := ⟨"q", ⟨"root/../Q.ts"⟩, [], "Q"⟩
    let t' := worldAfter (updateModule u : ExceptT ModuleProblem (StateM Tree) _).run t
    (t.trail true u.module).settled = false ∧ merge (some text) u = .ok text ∧
      textAt t u.module = .ok none ∧ textAt t ⟨"Q.ts"⟩ = .ok (some text) ∧
      textAt t' ⟨"Q.ts"⟩ ≠ .ok (some text) := by
  decide +kernel

end TypeLoom.Plugins
