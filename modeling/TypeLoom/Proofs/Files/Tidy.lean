import Mathlib.Data.List.Nodup
import TypeLoom.Proofs.Files.Target
import TypeLoom.Proofs.Path.Joined

/-!
# What a file system keeps to

At a place stands at most one thing, and its name can be a step of a path. So the names in a
directory are different proper names. Main statements: creating directories and writing files keep a
tree so; and a path that leads to a file ends with a name, even where that file is reached by links.
-/

namespace TypeLoom.Files.Tree

open TypeLoom.Path (IsStep)

/-- A name that a step of a path leads to. -/
structure Proper (name : String) : Prop where
  active : Path.isIdle name = false
  down : name ≠ ".."
  step : IsStep name

instance (name : String) : Decidable (Proper name) :=
  decidable_of_iff (Path.isIdle name = false ∧ name ≠ ".." ∧ '/' ∉ name.toList)
    ⟨fun ⟨hactive, hdown, hstep⟩ => ⟨hactive, hdown, hstep⟩,
      fun h => ⟨h.active, h.down, h.step⟩⟩

/-- A place that a name in a directory leads to. -/
def Named (place : Place) : Prop := ∃ dir name, place = dir ++ [name] ∧ Proper name

instance (place : Place) : Decidable (Named place) :=
  decidable_of_iff (place.getLast?.any (fun name => decide (Proper name)) = true) <| by
    rw [Option.any_eq_true]
    constructor
    · rintro ⟨name, hname, hproper⟩
      obtain ⟨dir, rfl⟩ := List.getLast?_eq_some_iff.mp hname
      exact ⟨dir, name, rfl, of_decide_eq_true hproper⟩
    · rintro ⟨dir, name, rfl, hproper⟩
      exact ⟨name, List.getLast?_concat, decide_eq_true hproper⟩

/-- A tree in which at most one thing stands at each place, under a proper name. -/
structure Tidy (t : Tree) : Prop where
  named : ∀ x ∈ t.entries, Named x.1
  distinct : (t.entries.map (·.1)).Nodup

instance (t : Tree) : Decidable (Tidy t) :=
  decidable_of_iff ((∀ x ∈ t.entries, Named x.1) ∧ (t.entries.map (·.1)).Nodup)
    ⟨fun ⟨hnamed, hdistinct⟩ => ⟨hnamed, hdistinct⟩, fun h => ⟨h.named, h.distinct⟩⟩

/-! ### Places where nothing stands -/

theorem isStep_of_mem_steps {p : Path} {s : String} (hs : s ∈ steps p) : IsStep s :=
  Path.isStep_of_mem_pieces hs

theorem pursue_proper {t : Tree} {follow : Bool} {hop : Place → List String → Trail}
    (hhop : ∀ dir steps, (∀ s ∈ steps, IsStep s) → ∀ place rest, hop dir steps = .missing place rest →
      ∃ dir name, place = dir ++ [name] ∧ Proper name)
    {dir : Place} {steps : List String} (hsteps : ∀ s ∈ steps, IsStep s) {place : Place}
    {rest : List String} (hp : t.pursue follow hop dir steps = .missing place rest) :
    ∃ dir name, place = dir ++ [name] ∧ Proper name := by
  induction steps generalizing dir with
  | nil => cases hp
  | cons step steps ih =>
    obtain ⟨hstep, hrest⟩ := List.forall_mem_cons.mp hsteps
    cases hidle : Path.isIdle step with
    | true => exact ih hrest (pursue_idle hidle ▸ hp)
    | false =>
      by_cases hup : step = ".."
      · exact ih hrest (pursue_up hidle hup ▸ hp)
      · rw [pursue_name hidle hup] at hp
        split at hp
        · cases hp
          exact ⟨dir, step, rfl, hidle, hup, hstep⟩
        · exact ih hrest hp
        · split at hp <;> cases hp
        · split at hp
          · cases hp
          · exact hhop _ _ (List.forall_mem_append.mpr ⟨fun _ => isStep_of_mem_steps, hrest⟩) _ _ hp

/-- A path to nothing leads to a place that has a proper name. -/
theorem trail_proper {t : Tree} {follow : Bool} {p : Path} {place : Place} {rest : List String}
    (hp : t.trail follow p = .missing place rest) :
    ∃ dir name, place = dir ++ [name] ∧ Proper name := by
  have hwithin : ∀ n dir steps, (∀ s ∈ steps, IsStep s) →
      ∀ place rest, t.pursueWithin follow n dir steps = .missing place rest →
        ∃ dir name, place = dir ++ [name] ∧ Proper name := by
    intro n
    induction n with
    | zero => intro _ _ _ _ _ hp; cases hp
    | succ n ih => exact fun dir steps hsteps place rest hp => pursue_proper ih hsteps hp
  unfold trail at hp
  split at hp
  · cases hp
  · exact hwithin _ _ _ (fun _ => isStep_of_mem_steps) _ _ hp

/-! ### Names in directories -/

variable {t : Tree}

theorem mem_entries_of_at? {place : Place} {e : Entry} (h : t.at? place = some e) (hne : place ≠ []) :
    (place, e) ∈ t.entries := by
  rw [at?, if_neg (by simpa using hne)] at h
  obtain ⟨before, after, heq, -⟩ := List.lookup_eq_some_iff.mp h
  exact heq ▸ List.mem_append_right before List.mem_cons_self

theorem at?_eq_none {place : Place} (h : t.at? place = none) :
    place ≠ [] ∧ ∀ x ∈ t.entries, x.1 ≠ place := by
  unfold at? at h
  split at h
  · cases h
  · rename_i hne
    refine ⟨fun hnil => hne (List.isEmpty_iff.mpr hnil), fun x hx hplace => ?_⟩
    have hx' := List.lookup_eq_none_iff.mp h x hx
    rw [hplace] at hx'
    simp at hx'

/-- The name of a place in a directory. -/
def nameIn? (dir place : Place) : Option String :=
  match place.getLast? with
  | some name => if place.dropLast == dir then some name else none
  | none => none

theorem nameIn?_eq_some {dir place : Place} {name : String} :
    nameIn? dir place = some name ↔ place = dir ++ [name] := by
  constructor
  · intro h
    unfold nameIn? at h
    split at h
    · rename_i last hlast
      split at h
      · rename_i hdir
        obtain rfl := Option.some.inj h
        rw [← beq_iff_eq.mp hdir, List.dropLast_append_getLast? _ hlast]
      · cases h
    · cases h
  · rintro rfl
    simp [nameIn?]

theorem namesIn_eq (t : Tree) (dir : Place) :
    t.namesIn dir = (t.entries.map (·.1)).filterMap (nameIn? dir) := by
  rw [List.filterMap_map]
  rfl

theorem mem_namesIn {dir : Place} {name : String} :
    name ∈ t.namesIn dir ↔ ∃ e, (dir ++ [name], e) ∈ t.entries := by
  simp only [namesIn_eq, List.mem_filterMap, nameIn?_eq_some]
  constructor
  · rintro ⟨place, hx, rfl⟩
    obtain ⟨⟨_, e⟩, he, rfl⟩ := List.mem_map.mp hx
    exact ⟨e, he⟩
  · rintro ⟨e, he⟩
    exact ⟨_, List.mem_map_of_mem he, rfl⟩

theorem at?_ne_none_of_mem_namesIn {dir : Place} {name : String}
    (h : name ∈ t.namesIn dir) : t.at? (dir ++ [name]) ≠ none := by
  obtain ⟨e, he⟩ := mem_namesIn.mp h
  exact fun hnone => (at?_eq_none hnone).2 _ he rfl

theorem mem_namesIn_of_at? {dir : Place} {name : String} {e : Entry}
    (h : t.at? (dir ++ [name]) = some e) : name ∈ t.namesIn dir :=
  mem_namesIn.mpr ⟨e, mem_entries_of_at? h (by simp)⟩

/-- Nothing stands where there is no directory. -/
theorem Sound.namesIn_of_none (hs : t.Sound) {dir : Place} (h : t.at? dir = none) :
    t.namesIn dir = [] := by
  refine List.eq_nil_iff_forall_not_mem.mpr fun name hname => ?_
  exact at?_ne_none_of_mem_namesIn hname (hs.at?_append_eq_none h [name])

theorem Tidy.proper_of_mem_namesIn (h : t.Tidy) {dir : Place} {name : String}
    (hname : name ∈ t.namesIn dir) : Proper name := by
  obtain ⟨e, he⟩ := mem_namesIn.mp hname
  obtain ⟨dir', name', hplace, hproper⟩ := h.named _ he
  obtain rfl := List.singleton_inj.mp (List.append_inj' hplace rfl).2
  exact hproper

theorem Tidy.namesIn_nodup (h : t.Tidy) (dir : Place) : (t.namesIn dir).Nodup := by
  rw [namesIn_eq]
  refine h.distinct.filterMap fun place place' name hname hname' => ?_
  rw [nameIn?_eq_some.mp hname, nameIn?_eq_some.mp hname']

/-! ### What is done to a tree -/

theorem Tidy.put (h : t.Tidy) {place : Place} (hplace : Named place) (e : Entry) :
    (t.put place e).Tidy := by
  constructor
  case named =>
    exact List.forall_mem_cons.mpr ⟨hplace, fun x hx => h.named x (List.mem_of_mem_filter hx)⟩
  case distinct =>
    refine List.nodup_cons.mpr ⟨fun hmem => ?_, h.distinct.sublist (List.filter_sublist.map _)⟩
    obtain ⟨x, hx, rfl⟩ := List.mem_map.mp hmem
    simpa using (List.mem_filter.mp hx).2

/-- Nothing stands at a place unless its name is proper. -/
theorem Tidy.of_at? (h : t.Tidy) {place : Place} {e : Entry} (hat : t.at? place = some e)
    (hne : place ≠ []) : Named place := h.named _ (mem_entries_of_at? hat hne)

theorem Tidy.write (h : t.Tidy) (p : Path) (content : List UInt8) : (t.write p content).2.Tidy := by
  rw [Tree.write, locate_eq]
  rcases htrail : t.trail true p with ⟨place, old | _ | _⟩ | ⟨place, _ | _⟩ | e
  · have hat := at?_of_trail_file htrail
    refine h.put (h.of_at? hat ?_) _
    rintro rfl
    cases hat
  · exact h
  · exact h
  · exact h.put (trail_proper htrail) _
  · exact h
  · exact h

theorem Tidy.createDirectory (h : t.Tidy) (p : Path) : (t.createDirectory p).2.Tidy := by
  rw [Tree.createDirectory, locate_eq]
  rcases htrail : t.trail false (trimmedPath p) with ⟨place, e⟩ | ⟨place, _ | _⟩ | e
  · exact h
  · exact h.put (trail_proper htrail) _
  · exact h
  · exact h

/-! ### Files -/

/-- Steps that end with a name. -/
def EndsInName (steps : List String) : Prop :=
  ∃ name, steps.getLast? = some name ∧ Path.isIdle name = false ∧ name ≠ ".."

theorem EndsInName.cons {rest : List String} (h : EndsInName rest) (step : String) :
    EndsInName (step :: rest) := by
  obtain ⟨name, hname, hproper⟩ := h
  exact ⟨name, by rw [List.getLast?_cons, hname]; rfl, hproper⟩

theorem pursue_file {follow : Bool} {hop : Place → List String → Trail}
    (hhop : ∀ dir steps place content, hop dir steps = .present place (.file content) →
      EndsInName steps)
    {dir : Place} {steps : List String} {place : Place} {content : List UInt8}
    (hp : t.pursue follow hop dir steps = .present place (.file content)) : EndsInName steps := by
  induction steps generalizing dir with
  | nil => cases hp
  | cons step rest ih =>
    cases hidle : Path.isIdle step with
    | true => exact (ih (pursue_idle hidle ▸ hp)).cons step
    | false =>
      by_cases hup : step = ".."
      · exact (ih (pursue_up hidle hup ▸ hp)).cons step
      · have hlast : rest = [] → EndsInName (step :: rest) := by
          rintro rfl
          exact ⟨step, rfl, hidle, hup⟩
        rw [pursue_name hidle hup] at hp
        split at hp
        · cases hp
        · exact (ih hp).cons step
        · split at hp
          · rename_i hnone
            exact hlast (List.isEmpty_iff.mp hnone)
          · cases hp
        · split at hp
          · cases hp
          · -- The steps of the link come first, and those after it are still to be taken.
            by_cases hnone : rest = []
            · exact hlast hnone
            · obtain ⟨name, hname, hproper⟩ := hhop _ _ _ _ hp
              rw [List.getLast?_append_of_ne_nil _ hnone] at hname
              exact EndsInName.cons ⟨name, hname, hproper⟩ step

/-- A path that leads to a file ends with a name. -/
theorem fileName?_of_file {p : Path} (h : t.kind p = .ok .file) :
    ∃ name, p.fileName? = some name := by
  have hwithin : ∀ n dir steps place content,
      t.pursueWithin true n dir steps = .present place (.file content) → EndsInName steps := by
    intro n
    induction n with
    | zero => exact fun _ _ _ _ hp => by cases hp
    | succ n ih => exact fun _ _ _ _ hp => pursue_file ih hp
  obtain ⟨place, content, hp⟩ := kind_file_iff.mp h
  unfold trail at hp
  split at hp
  · cases hp
  · obtain ⟨name, hname, hactive, hdown⟩ := hwithin _ _ _ _ _ hp
    obtain ⟨initial, hsteps⟩ := List.getLast?_eq_some_iff.mp hname
    have hpieces : p.pieces = initial ++ [name] := hsteps
    have hstep : Path.stepComponent name = .name name := if_neg (by simpa using hdown)
    refine ⟨name, Path.fileName?_eq_some.mpr ?_⟩
    rw [Path.components_eq_startOf, Path.stepComponents, hpieces, Path.denoting,
      List.filter_append, List.map_append, List.getLast?_append, List.getLast?_append]
    simp [hactive, hstep]

end TypeLoom.Files.Tree
