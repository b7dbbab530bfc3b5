import Mathlib.Data.List.Induction
import TypeLoom.Files.Tree

/-!
# How far paths lead

A path leads to something that stands in a tree, or it leads to a place where nothing stands and has
steps left, or it leads nowhere. Main statement: as long as a tree only gets new directories and new
or other content of files, paths are followed in it as before, up to the first place that has been
filled.
-/

namespace TypeLoom.Files

/-- How far a path leads. -/
inductive Trail where
  | present (place : Place) (entry : Entry)
  | missing (place : Place) (rest : List String)
  | failed (error : OsError)

/-- The destination of a path; at a place where nothing stands no step may be left. -/
def Trail.destination : Trail → Except OsError Destination
  | .present place entry => .ok (.present place entry)
  | .missing place [] => .ok (.absent place)
  | .missing _ (_ :: _) => .error .notFound
  | .failed e => .error e

namespace Tree

/-- Takes steps from a directory as far as they lead. -/
def pursue (t : Tree) (follow : Bool) (hop : Place → List String → Trail) :
    Place → List String → Trail
  | dir, [] => .present dir .directory
  | dir, step :: rest =>
    if Path.isIdle step then pursue t follow hop dir rest
    else if step == ".." then pursue t follow hop dir.dropLast rest
    else
      let place := dir ++ [step]
      match t.at? place with
      | none => .missing place rest
      | some .directory => pursue t follow hop place rest
      | some (.file content) =>
        if rest.isEmpty then .present place (.file content) else .failed .notADirectory
      | some (.link target) =>
        if rest.isEmpty && !follow then .present place (.link target)
        else hop (start dir target) (steps target ++ rest)

def pursueWithin (t : Tree) (follow : Bool) : Nat → Place → List String → Trail
  | 0, _, _ => .failed .tooManyLinks
  | n + 1, dir, steps => t.pursue follow (pursueWithin t follow n) dir steps

/-- How far a path leads in a tree. -/
def trail (t : Tree) (follow : Bool) (p : Path) : Trail :=
  if p.raw.isEmpty then .failed .notFound
  else t.pursueWithin follow (maxLinks + 1) (start t.home p) (steps p)

section

variable {t : Tree} {follow : Bool} {hop : Place → List String → Trail} {dir : Place}
  {step : String} {rest : List String}

theorem pursue_idle (h : Path.isIdle step = true) :
    t.pursue follow hop dir (step :: rest) = t.pursue follow hop dir rest := by
  rw [pursue, if_pos h]

theorem pursue_up (h : Path.isIdle step = false) (hup : step = "..") :
    t.pursue follow hop dir (step :: rest) = t.pursue follow hop dir.dropLast rest := by
  rw [pursue, if_neg (by simp [h]), if_pos (by simp [hup])]

theorem pursue_name (h : Path.isIdle step = false) (hup : step ≠ "..") :
    t.pursue follow hop dir (step :: rest) =
      match t.at? (dir ++ [step]) with
      | none => .missing (dir ++ [step]) rest
      | some .directory => t.pursue follow hop (dir ++ [step]) rest
      | some (.file content) =>
        if rest.isEmpty then .present (dir ++ [step]) (.file content) else .failed .notADirectory
      | some (.link target) =>
        if rest.isEmpty && !follow then .present (dir ++ [step]) (.link target)
        else hop (start dir target) (steps target ++ rest) := by
  rw [pursue, if_neg (by simp [h]), if_neg (by simp [hup])]

end

theorem advance_eq (t : Tree) (follow : Bool)
    {seek : Place → List String → Except OsError Destination} {hop : Place → List String → Trail}
    (hhop : ∀ dir steps, seek dir steps = (hop dir steps).destination) (dir : Place)
    (steps : List String) :
    t.advance follow seek dir steps = (t.pursue follow hop dir steps).destination := by
  induction steps generalizing dir with
  | nil => rfl
  | cons step rest ih =>
    rw [advance, pursue]
    split
    · exact ih dir
    · split
      · exact ih dir.dropLast
      · dsimp only
        cases t.at? (dir ++ [step]) with
        | none => cases rest <;> rfl
        | some entry =>
          cases entry with
          | directory => exact ih _
          | file content => cases rest <;> rfl
          | link target =>
            dsimp only
            split
            · rfl
            · exact hhop _ _

theorem advanceWithin_eq (t : Tree) (follow : Bool) (n : Nat) (dir : Place) (steps : List String) :
    t.advanceWithin follow n dir steps = (t.pursueWithin follow n dir steps).destination := by
  induction n generalizing dir steps with
  | zero => rfl
  | succ n ih => exact advance_eq t follow ih dir steps

/-- A path leads to its destination. -/
theorem locate_eq (t : Tree) (follow : Bool) (p : Path) :
    t.locate follow p = (t.trail follow p).destination := by
  unfold locate trail
  split
  · rfl
  · exact advanceWithin_eq t follow _ _ _

/-! ### Trees in which things stand in directories -/

/-- What stands in a tree stands in a directory, and the working directory is one. -/
structure Sound (t : Tree) : Prop where
  home : t.at? t.home = some .directory
  nested : ∀ place e, t.at? place = some e → t.at? place.dropLast = some .directory

/-- A tree is sound if its entries are. -/
theorem sound_of_entries {t : Tree} (hhome : t.at? t.home = some .directory)
    (h : ∀ x ∈ t.entries, t.at? x.1.dropLast = some .directory) : t.Sound := by
  refine ⟨hhome, fun place e he => ?_⟩
  unfold at? at he
  split at he
  · rename_i hplace
    rw [List.isEmpty_iff.1 hplace]
    rfl
  · obtain ⟨before, after, heq, -⟩ := List.lookup_eq_some_iff.1 he
    exact h (place, e) (heq ▸ List.mem_append_right before List.mem_cons_self)

/-- Below a place where nothing stands there is nothing. -/
theorem Sound.at?_append_eq_none {t : Tree} (h : t.Sound) {place : Place} (hn : t.at? place = none)
    (more : List String) : t.at? (place ++ more) = none := by
  induction more using List.reverseRecOn with
  | nil => rwa [List.append_nil]
  | append_singleton more name ih =>
    cases ha : t.at? (place ++ (more ++ [name])) with
    | none => rfl
    | some e =>
      have hparent := h.nested _ e ha
      rw [← List.append_assoc, List.dropLast_concat, ih] at hparent
      cases hparent

/-- A place where nothing stands, in a directory. -/
structure Vacant (t : Tree) (place : Place) : Prop where
  none : t.at? place = none
  parent : t.at? place.dropLast = some .directory

/-- From a directory, steps lead to nothing but vacant places. -/
theorem pursue_vacant {t : Tree} (h : t.Sound) {follow : Bool} {hop : Place → List String → Trail}
    (hhop : ∀ dir steps, t.at? dir = some .directory →
      ∀ place rest, hop dir steps = .missing place rest → t.Vacant place)
    {dir : Place} {steps : List String} (hdir : t.at? dir = some .directory) {place : Place}
    {rest : List String} (hp : t.pursue follow hop dir steps = .missing place rest) :
    t.Vacant place := by
  induction steps generalizing dir with
  | nil => cases hp
  | cons step steps ih =>
    cases hidle : Path.isIdle step with
    | true => exact ih hdir (pursue_idle hidle ▸ hp)
    | false =>
      by_cases hup : step = ".."
      · exact ih (h.nested _ _ hdir) (pursue_up hidle hup ▸ hp)
      · rw [pursue_name hidle hup] at hp
        split at hp
        · rename_i ha
          cases hp
          exact ⟨ha, by rwa [List.dropLast_concat]⟩
        · rename_i ha
          exact ih ha hp
        · split at hp <;> cases hp
        · rename_i target ha
          split at hp
          · cases hp
          · refine hhop _ _ ?_ _ _ hp
            unfold start
            split
            · rfl
            · exact hdir

theorem trail_vacant {t : Tree} (h : t.Sound) {follow : Bool} {p : Path} {place : Place}
    {rest : List String} (hp : t.trail follow p = .missing place rest) : t.Vacant place := by
  have hwithin : ∀ n dir steps, t.at? dir = some .directory →
      ∀ place rest, t.pursueWithin follow n dir steps = .missing place rest → t.Vacant place := by
    intro n
    induction n with
    | zero => intro _ _ _ _ _ hp; cases hp
    | succ n ih => exact fun dir steps hdir place rest hp => pursue_vacant h ih hdir hp
  unfold trail at hp
  split at hp
  · cases hp
  · refine hwithin _ _ _ ?_ _ _ hp
    unfold start
    split
    · rfl
    · exact h.home

/-! ### Steps that are added, and links at the end -/

/-- A path that ends with a link that is not followed is the only one for which it matters whether
links at the end are followed. -/
theorem pursue_follow {t : Tree} {hop hop' : Place → List String → Trail}
    (hhop : ∀ dir steps place rest, hop dir steps = .missing place rest →
      hop' dir steps = .missing place rest)
    {dir : Place} {steps : List String} {place : Place} {rest : List String}
    (hp : t.pursue false hop dir steps = .missing place rest) :
    t.pursue true hop' dir steps = .missing place rest := by
  induction steps generalizing dir with
  | nil => cases hp
  | cons step steps ih =>
    cases hidle : Path.isIdle step with
    | true =>
      rw [pursue_idle hidle] at hp ⊢
      exact ih hp
    | false =>
      by_cases hup : step = ".."
      · rw [pursue_up hidle hup] at hp ⊢
        exact ih hp
      · rw [pursue_name hidle hup] at hp ⊢
        cases ha : t.at? (dir ++ [step]) with
        | none =>
          rw [ha] at hp
          exact hp
        | some entry =>
          rw [ha] at hp
          cases entry with
          | directory => exact ih hp
          | file content => exact hp
          | link target =>
            dsimp only at hp ⊢
            split at hp
            · cases hp
            · rw [if_neg (by simp)]
              exact hhop _ _ _ _ hp

theorem trail_follow {t : Tree} {p : Path} {place : Place} {rest : List String}
    (hp : t.trail false p = .missing place rest) : t.trail true p = .missing place rest := by
  have hwithin : ∀ n dir steps place rest, t.pursueWithin false n dir steps = .missing place rest →
      t.pursueWithin true n dir steps = .missing place rest := by
    intro n
    induction n with
    | zero => intro _ _ _ _ hp; cases hp
    | succ n ih => exact fun dir steps place rest hp => pursue_follow ih hp
  unfold trail at hp ⊢
  split at hp
  · cases hp
  · rw [if_neg ‹_›]
    exact hwithin _ _ _ _ _ hp

/-- Steps added to a path that leads to nothing are left at its end. -/
theorem pursue_append {t : Tree} {hop : Place → List String → Trail} {more : List String}
    (hhop : ∀ dir steps place rest, hop dir steps = .missing place rest →
      hop dir (steps ++ more) = .missing place (rest ++ more))
    {dir : Place} {steps : List String} {place : Place} {rest : List String}
    (hp : t.pursue true hop dir steps = .missing place rest) :
    t.pursue true hop dir (steps ++ more) = .missing place (rest ++ more) := by
  induction steps generalizing dir with
  | nil => cases hp
  | cons step steps ih =>
    rw [List.cons_append]
    cases hidle : Path.isIdle step with
    | true =>
      rw [pursue_idle hidle] at hp ⊢
      exact ih hp
    | false =>
      by_cases hup : step = ".."
      · rw [pursue_up hidle hup] at hp ⊢
        exact ih hp
      · rw [pursue_name hidle hup] at hp ⊢
        cases ha : t.at? (dir ++ [step]) with
        | none =>
          rw [ha] at hp
          cases hp
          rfl
        | some entry =>
          rw [ha] at hp
          cases entry with
          | directory => exact ih hp
          | file content =>
            dsimp only at hp
            split at hp <;> cases hp
          | link target =>
            simp only [Bool.not_true, Bool.and_false, Bool.false_eq_true, if_false] at hp ⊢
            rw [← List.append_assoc]
            exact hhop _ _ _ _ hp

theorem pursueWithin_append {t : Tree} {more : List String} (n : Nat) {dir : Place}
    {steps : List String} {place : Place} {rest : List String}
    (hp : t.pursueWithin true n dir steps = .missing place rest) :
    t.pursueWithin true n dir (steps ++ more) = .missing place (rest ++ more) := by
  induction n generalizing dir steps place rest with
  | zero => cases hp
  | succ n ih => exact pursue_append (fun _ _ _ _ h => ih h) hp

/-! ### Trees that are filled -/

/-- A tree in which directories were created at some places where nothing stood, and files were
created or written at others. -/
structure Fills (dirs files : Place → Prop) (t t' : Tree) : Prop where
  home : t'.home = t.home
  entries : ∀ q, t'.at? q = t.at? q ∨
    (dirs q ∧ t.at? q = none ∧ t'.at? q = some .directory) ∨
    (files q ∧ (t.at? q = none ∨ ∃ content, t.at? q = some (.file content)) ∧
      ∃ content, t'.at? q = some (.file content))

namespace Fills

variable {dirs files : Place → Prop} {t t' t'' : Tree}

theorem refl (dirs files : Place → Prop) (t : Tree) : Fills dirs files t t := ⟨rfl, fun _ => .inl rfl⟩

theorem trans (h : Fills dirs files t t') (h' : Fills dirs files t' t'') :
    Fills dirs files t t'' := by
  refine ⟨h'.home.trans h.home, fun q => ?_⟩
  rcases h.entries q with h₁ | ⟨hd, h₁, h₂⟩ | ⟨hf, h₁, c, h₂⟩ <;>
    rcases h'.entries q with h₃ | ⟨hd', h₃, h₄⟩ | ⟨hf', h₃, c', h₄⟩ <;> grind

theorem mono {dirs' files' : Place → Prop} (h : Fills dirs files t t')
    (hd : ∀ q, dirs q → dirs' q) (hf : ∀ q, files q → files' q) : Fills dirs' files' t t' := by
  refine ⟨h.home, fun q => ?_⟩
  rcases h.entries q with h₁ | ⟨hq, h₁⟩ | ⟨hq, h₁⟩
  · exact .inl h₁
  · exact .inr (.inl ⟨hd q hq, h₁⟩)
  · exact .inr (.inr ⟨hf q hq, h₁⟩)

theorem directory (h : Fills dirs files t t') {q : Place} (hq : t.at? q = some .directory) :
    t'.at? q = some .directory := by
  rcases h.entries q with h₁ | ⟨-, h₁, -⟩ | ⟨-, h₁, -⟩ <;> grind

theorem link (h : Fills dirs files t t') {q : Place} {target : Path}
    (hq : t.at? q = some (.link target)) : t'.at? q = some (.link target) := by
  rcases h.entries q with h₁ | ⟨-, h₁, -⟩ | ⟨-, h₁, -⟩ <;> grind

theorem file (h : Fills dirs files t t') {q : Place} {content : List UInt8}
    (hq : t.at? q = some (.file content)) :
    ∃ content', t'.at? q = some (.file content') ∧ (¬ files q → content' = content) := by
  rcases h.entries q with h₁ | ⟨-, h₁, -⟩ | ⟨hf, -, c, h₁⟩
  · exact ⟨content, h₁.trans hq, fun _ => rfl⟩
  · rw [hq] at h₁
    cases h₁
  · exact ⟨c, h₁, fun hn => absurd hf hn⟩

end Fills

/-- Where a path leads in a tree that has been filled, by where it led before. At a place where
nothing stood its steps go on, and no links are met there. -/
inductive Resumes (t t' : Tree) : Trail → Trail → Prop
  | failed (e : OsError) : Resumes t t' (.failed e) (.failed e)
  | directory (place : Place) :
      Resumes t t' (.present place .directory) (.present place .directory)
  | file {place : Place} {content content' : List UInt8} (h : t.at? place = some (.file content))
      (h' : t'.at? place = some (.file content')) :
      Resumes t t' (.present place (.file content)) (.present place (.file content'))
  | missing (dir : Place) {step : String} (rest : List String)
      (hop : Place → List String → Trail) (hidle : Path.isIdle step = false) (hup : step ≠ "..") :
      Resumes t t' (.missing (dir ++ [step]) rest) (t'.pursue true hop dir (step :: rest))

theorem pursue_resumes {dirs files : Place → Prop} {t t' : Tree} (h : Fills dirs files t t')
    {hop hop' : Place → List String → Trail}
    (hhop : ∀ dir steps, Resumes t t' (hop dir steps) (hop' dir steps)) (dir : Place)
    (steps : List String) :
    Resumes t t' (t.pursue true hop dir steps) (t'.pursue true hop' dir steps) := by
  induction steps generalizing dir with
  | nil => exact .directory dir
  | cons step rest ih =>
    cases hidle : Path.isIdle step with
    | true =>
      rw [pursue_idle hidle, pursue_idle hidle]
      exact ih dir
    | false =>
      by_cases hup : step = ".."
      · rw [pursue_up hidle hup, pursue_up hidle hup]
        exact ih dir.dropLast
      · cases ha : t.at? (dir ++ [step]) with
        | none =>
          have hp : t.pursue true hop dir (step :: rest) = .missing (dir ++ [step]) rest := by
            rw [pursue_name hidle hup, ha]
          rw [hp]
          exact .missing dir rest hop' hidle hup
        | some entry =>
          rw [pursue_name hidle hup, pursue_name hidle hup, ha]
          cases entry with
          | directory =>
            rw [h.directory ha]
            exact ih _
          | file content =>
            obtain ⟨content', hc, -⟩ := h.file ha
            rw [hc]
            dsimp only
            split
            · exact .file ha hc
            · exact .failed _
          | link target =>
            rw [h.link ha]
            simp only [Bool.not_true, Bool.and_false, Bool.false_eq_true, if_false]
            exact hhop _ _

/-- Paths are followed in a filled tree as before, up to the first place that has been filled. -/
theorem trail_resumes {dirs files : Place → Prop} {t t' : Tree} (h : Fills dirs files t t')
    (p : Path) : Resumes t t' (t.trail true p) (t'.trail true p) := by
  have hwithin : ∀ n dir steps,
      Resumes t t' (t.pursueWithin true n dir steps) (t'.pursueWithin true n dir steps) := by
    intro n
    induction n with
    | zero => exact fun _ _ => .failed _
    | succ n ih => exact pursue_resumes h ih
  unfold trail
  split
  · exact .failed _
  · rw [h.home]
    exact hwithin _ _ _

end Tree

end TypeLoom.Files
