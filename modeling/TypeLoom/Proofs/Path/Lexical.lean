import TypeLoom.Proofs.Path.Joined

/-!
# Paths with their steps resolved

In the text of a path, a `.` stays where it is and a `..` takes back the name before it. Above a
root there is nothing, and a `..` without a name before it remains. Main statement: as long as no
`..` remains of a relative path, joining resolves it below the base, wherever the base itself leads.
-/

namespace TypeLoom.Path

/-- One more component after those that are resolved, of which the last one comes first. -/
def resolveStep : List Component → Component → List Component
  | above, .here => above
  | .name _ :: above, .up => above
  | .root :: above, .up => .root :: above
  | above, c => c :: above

/-- What a path denotes with its `.` and `..` resolved. -/
def lexical (p : Path) : List Component := (p.components.foldl resolveStep []).reverse

/-- From a directory, names alone lead to what is under it. -/
def Under (p dir : Path) : Prop :=
  ∃ names : List String, names ≠ [] ∧ p.lexical = dir.lexical ++ names.map .name

/-! ### One step -/

@[simp] theorem resolveStep_here (above : List Component) : resolveStep above .here = above := by
  unfold resolveStep
  split <;> simp_all

@[simp] theorem resolveStep_name (above : List Component) (n : String) :
    resolveStep above (.name n) = .name n :: above := by
  unfold resolveStep
  split <;> simp_all

/-- Only a name is taken back. -/
theorem resolveStep_up_cases (above : List Component) :
    (∃ n rest, above = .name n :: rest ∧ resolveStep above .up = rest) ∨
      resolveStep above .up = above ∨ resolveStep above .up = .up :: above := by
  cases above with
  | nil => exact .inr (.inr rfl)
  | cons c above =>
    cases c with
    | name n => exact .inl ⟨n, above, rfl, rfl⟩
    | root => exact .inr (.inl rfl)
    | here => exact .inr (.inr rfl)
    | up => exact .inr (.inr rfl)

theorem up_mem_resolveStep {above : List Component} (h : .up ∈ above) (c : Component) :
    .up ∈ resolveStep above c := by
  cases c with
  | root =>
    unfold resolveStep
    split <;> simp_all
  | here => simpa using h
  | name n => simpa using h
  | up =>
    rcases resolveStep_up_cases above with ⟨n, rest, rfl, hstep⟩ | hstep | hstep
    · rw [hstep]
      simpa using h
    · rwa [hstep]
    · rw [hstep]
      exact List.mem_cons_self

theorem mem_resolveStep {above : List Component} {c d : Component} (h : d ∈ resolveStep above c) :
    d ∈ above ∨ d = c := by
  unfold resolveStep at h
  split at h
  · exact .inl h
  · exact .inl (List.mem_cons_of_mem _ h)
  · exact .inl h
  · exact (List.mem_cons.mp h).symm

/-! ### All steps -/

/-- A `..` that remains is there to the end. -/
theorem up_mem_foldl {cs above : List Component} (h : .up ∈ above) :
    .up ∈ cs.foldl resolveStep above := by
  induction cs generalizing above with
  | nil => exact h
  | cons c cs ih => exact ih (up_mem_resolveStep h c)

theorem mem_foldl {cs above : List Component} {d : Component}
    (h : d ∈ cs.foldl resolveStep above) : d ∈ above ∨ d ∈ cs := by
  induction cs generalizing above with
  | nil => exact .inl h
  | cons c cs ih =>
    rcases ih h with h | h
    · refine (mem_resolveStep h).imp id fun hc => ?_
      rw [hc]
      exact List.mem_cons_self
    · exact .inr (List.mem_cons_of_mem c h)

theorem foldl_names {cs : List Component} (hcs : ∀ c ∈ cs, ∃ n, c = .name n)
    (above : List Component) : cs.foldl resolveStep above = cs.reverse ++ above := by
  induction cs generalizing above with
  | nil => rfl
  | cons c cs ih =>
    obtain ⟨⟨n, rfl⟩, hrest⟩ := List.forall_mem_cons.mp hcs
    rw [List.foldl_cons, resolveStep_name, ih hrest, List.reverse_cons, List.append_assoc]
    rfl

/-- Steps that never take back more than the names among them do not read what is above. -/
theorem foldl_above {cs : List Component} (hcs : ∀ c ∈ cs, c = .up ∨ ∃ n, c = .name n)
    (names : List String) (hup : .up ∉ cs.foldl resolveStep (names.map .name))
    (above : List Component) :
    ∃ result : List String, cs.foldl resolveStep (names.map .name) = result.map .name ∧
      cs.foldl resolveStep (names.map .name ++ above) = result.map .name ++ above := by
  induction cs generalizing names with
  | nil => exact ⟨names, rfl, rfl⟩
  | cons c cs ih =>
    obtain ⟨hc, hrest⟩ := List.forall_mem_cons.mp hcs
    simp only [List.foldl_cons] at hup ⊢
    rcases hc with rfl | ⟨n, rfl⟩
    · cases names with
      | nil => exact absurd (up_mem_foldl (List.mem_singleton.mpr rfl)) hup
      | cons m names => exact ih hrest names hup
    · rw [resolveStep_name] at hup ⊢
      rw [resolveStep_name]
      exact ih hrest (n :: names) hup

/-! ### Joined paths -/

variable {p base : Path}

theorem foldl_components (h : p.isAbsolute = false) (above : List Component) :
    p.components.foldl resolveStep above = p.stepComponents.foldl resolveStep above := by
  rcases components_relative h with hp | hp
  · rw [hp]
  · rw [hp, List.foldl_cons, resolveStep_here]

theorem foldl_components_join (h : p.isAbsolute = false) :
    (base.join p).components.foldl resolveStep [] =
      p.stepComponents.foldl resolveStep (base.components.foldl resolveStep []) := by
  by_cases hraw : base.raw = ""
  · obtain rfl : base = ⟨""⟩ := congrArg Path.mk hraw
    rw [empty_join h, components_empty]
    exact foldl_components h []
  · rw [components_join h hraw, List.foldl_append]

/-- As long as no `..` remains of a path, its names follow those of the base. -/
theorem lexical_join (base : Path) (h : p.isAbsolute = false) (hup : .up ∉ p.lexical) :
    (∃ names : List String, p.lexical = names.map .name) ∧
      (base.join p).lexical = base.lexical ++ p.lexical := by
  rw [lexical, foldl_components h, List.mem_reverse] at hup
  obtain ⟨names, hp, hjoin⟩ := foldl_above (fun _ hc => mem_stepComponents hc) [] hup
    (base.components.foldl resolveStep [])
  rw [List.map_nil] at hp
  refine ⟨⟨names.reverse, ?_⟩, ?_⟩
  · rw [lexical, foldl_components h, hp, List.map_reverse]
  · rw [lexical, foldl_components_join h, lexical, lexical, foldl_components h, hp]
    exact (congrArg List.reverse hjoin).trans List.reverse_append

/-- What is joined is under the base if a name is its last step and no `..` remains of it. -/
theorem under_join (base : Path) (h : p.isAbsolute = false) {n : String}
    (hlast : p.stepComponents.getLast? = some (.name n)) (hup : .up ∉ p.lexical) :
    (base.join p).Under base := by
  obtain ⟨⟨names, hnames⟩, hjoin⟩ := lexical_join base h hup
  refine ⟨names, ?_, by rw [hjoin, hnames]⟩
  rintro rfl
  obtain ⟨steps, hsteps⟩ := List.getLast?_eq_some_iff.mp hlast
  rw [lexical, foldl_components h, hsteps, List.foldl_concat, resolveStep_name] at hnames
  simp at hnames

/-- A path without `..` is resolved to its names. -/
theorem lexical_of_up_notMem (h : p.isAbsolute = false) (hup : .up ∉ p.components) :
    p.lexical = p.stepComponents := by
  have hnames (c : Component) (hc : c ∈ p.stepComponents) : ∃ n, c = .name n := by
    exact (mem_stepComponents hc).resolve_left fun hstep =>
      hup (mem_components_of_step (hstep ▸ hc))
  rw [lexical, foldl_components h, foldl_names hnames, List.append_nil, List.reverse_reverse]

theorem up_notMem_lexical (hup : .up ∉ p.components) : .up ∉ p.lexical := by
  intro hmem
  rcases mem_foldl (List.mem_reverse.mp hmem) with hnil | hmem
  · exact absurd hnil List.not_mem_nil
  · exact hup hmem

theorem lexical_congr {q : Path} (h : p.components = q.components) : p.lexical = q.lexical := by
  rw [lexical, lexical, h]

/-- A `..` is taken back where it stands, also at a root. -/
example : lexical ⟨"/../a/./b//../c"⟩ = [.root, .name "a", .name "c"] := by decide +kernel

end TypeLoom.Path
