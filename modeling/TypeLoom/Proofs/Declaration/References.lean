import TypeLoom.Declaration.Dependencies

/-!
# What declarations refer to and what they import

The names a declaration refers to are read off it. Declarations are accounted for when they refer
to nothing but each other and the names they need from elsewhere, and need nothing else. The
dependencies of a file have exactly the names that were added to them, each from its path.
-/

namespace TypeLoom.Declaration

mutual

/-- The names a type refers to. -/
def TypeExpr.references : TypeExpr → List String
  | .array item => item.references
  | .function parameters result => parameterReferences parameters ++ result.references
  | .reference name arguments => name :: typeReferences arguments
  | .union members => typeReferences members
  | _ => []

def typeReferences : List TypeExpr → List String
  | [] => []
  | t :: ts => t.references ++ typeReferences ts

def parameterReferences : List (String × TypeExpr) → List String
  | [] => []
  | (_, t) :: ps => t.references ++ parameterReferences ps

end

/-- The names a declaration refers to, apart from its own parameters. -/
def references : Declaration → List String
  | .interface _ _ bases members => bases ++ members.flatMap (·.type.references)
  | .alias _ _ parameters type => type.references.filter (!parameters.contains ·)

@[simp]
theorem references_interface (doc : Option String) (name : String) (bases : List String)
    (members : List Member) :
    (Declaration.interface doc name bases members).references =
      bases ++ members.flatMap (·.type.references) := rfl

@[simp]
theorem references_alias (doc : Option String) (name : String) (type : TypeExpr) :
    (Declaration.alias doc name [] type).references = type.references := by
  simp [references]

@[simp]
theorem references_reference (name : String) (arguments : List TypeExpr) :
    (TypeExpr.reference name arguments).references = name :: typeReferences arguments := by
  rw [TypeExpr.references]

@[simp]
theorem typeReferences_cons (t : TypeExpr) (ts : List TypeExpr) :
    typeReferences (t :: ts) = t.references ++ typeReferences ts := by
  rw [typeReferences]

@[simp]
theorem typeReferences_nil : typeReferences [] = [] := by
  rw [typeReferences]

@[simp]
theorem references_array (t : TypeExpr) : (TypeExpr.array t).references = t.references := by
  rw [TypeExpr.references]

@[simp]
theorem references_undefined : TypeExpr.undefined.references = [] := by
  simp [TypeExpr.references]

@[simp]
theorem name_interface (doc : Option String) (name : String) (bases : List String)
    (members : List Member) : (Declaration.interface doc name bases members).name = name := rfl

@[simp]
theorem name_alias (doc : Option String) (name : String) (parameters : List String)
    (type : TypeExpr) : (Declaration.alias doc name parameters type).name = name := rfl

namespace Contents

def references (m : Contents) : List String := m.declarations.flatMap (·.references)

def declared (m : Contents) : List String := m.declarations.map (·.name)

/-- The names that imports bind. -/
def imported (m : Contents) : List String :=
  m.imports.flatMap fun i => i.default.toList ++ i.named.map (·.bound)

end Contents

/-- Declarations that need names from elsewhere and refer to nothing but these names and each
other. -/
structure Accounted (needed : List String) (ds : List Declaration) : Prop where
  known : ∀ n ∈ ds.flatMap (·.references), n ∈ needed ∨ n ∈ ds.map (·.name)
  used : ∀ n ∈ needed, n ∈ ds.flatMap (·.references)

namespace Accounted

variable {needed others : List String} {ds es : List Declaration}

theorem append (hd : Accounted needed ds) (he : Accounted others es) :
    Accounted (needed ++ others) (ds ++ es) where
  known := by
    intro n hn
    rw [List.flatMap_append, List.mem_append] at hn
    rw [List.map_append, List.mem_append, List.mem_append]
    rcases hn with hn | hn
    · exact (hd.known n hn).imp Or.inl Or.inl
    · exact (he.known n hn).imp Or.inr Or.inr
  used := by
    intro n hn
    rw [List.flatMap_append, List.mem_append]
    exact (List.mem_append.mp hn).imp (hd.used n) (he.used n)

/-- A declaration that refers to others before it needs nothing. -/
theorem concat (hd : Accounted needed ds) {e : Declaration}
    (he : ∀ n ∈ e.references, n ∈ ds.map (·.name)) : Accounted needed (ds ++ [e]) where
  known := by
    intro n hn
    rw [List.flatMap_append, List.flatMap_singleton, List.mem_append] at hn
    rw [List.map_append, List.mem_append]
    rcases hn with hn | hn
    · exact (hd.known n hn).imp_right Or.inl
    · exact Or.inr (Or.inl (he n hn))
  used := by
    intro n hn
    rw [List.flatMap_append]
    exact List.mem_append_left _ (hd.used n hn)

theorem flatMap {α : Type} {f : α → List String} {g : α → List Declaration} {xs : List α}
    (h : ∀ x ∈ xs, Accounted (f x) (g x)) : Accounted (xs.flatMap f) (xs.flatMap g) := by
  induction xs with
  | nil => exact ⟨by simp, by simp⟩
  | cons x xs ih =>
    obtain ⟨hx, hxs⟩ := List.forall_mem_cons.mp h
    exact hx.append (ih hxs)

end Accounted

theorem mem_insertName {name n : String} {ns : List String} :
    n ∈ insertName name ns ↔ n = name ∨ n ∈ ns := by
  fun_induction insertName name ns with
  | case1 => simp
  | case2 => simp
  | case3 m ns hlt heq =>
    obtain rfl : name = m := by simpa using heq
    simp
  | case4 m ns hlt hne ih =>
    rw [List.mem_cons, ih, List.mem_cons]
    exact or_left_comm

namespace Dependencies

/-- Whether a name is imported from a path. -/
def Has (d : Dependencies) (path name : String) : Prop :=
  ∃ names, (path, names) ∈ d.entries ∧ name ∈ names

theorem has_cons {p : String} {ns : List String} {rest : List (String × List String)}
    {path name : String} :
    Has ⟨(p, ns) :: rest⟩ path name ↔ (path = p ∧ name ∈ ns) ∨ Has ⟨rest⟩ path name := by
  constructor
  · rintro ⟨names, hmem, hname⟩
    rcases List.mem_cons.mp hmem with heq | hmem
    · obtain ⟨rfl, rfl⟩ := Prod.mk.inj heq
      exact Or.inl ⟨rfl, hname⟩
    · exact Or.inr ⟨names, hmem, hname⟩
  · rintro (⟨rfl, hname⟩ | ⟨names, hmem, hname⟩)
    · exact ⟨ns, List.mem_cons_self, hname⟩
    · exact ⟨names, List.mem_cons_of_mem _ hmem, hname⟩

theorem has_add {d : Dependencies} {path name q n : String} :
    (d.add path name).Has q n ↔ (q = path ∧ n = name) ∨ d.Has q n := by
  obtain ⟨entries⟩ := d
  unfold add
  dsimp only
  fun_induction addEntry path name entries with
  | case1 => rw [has_cons, List.mem_singleton]
  | case2 p ns rest hlt => rw [has_cons, List.mem_singleton]
  | case3 p ns rest hlt heq =>
    obtain rfl : path = p := by simpa using heq
    rw [has_cons, has_cons, mem_insertName, and_or_left, or_assoc]
  | case4 p ns rest hlt hne ih =>
    rw [has_cons, has_cons, ih]
    exact or_left_comm

/-- No path is imported from for nothing. -/
def Tight (d : Dependencies) : Prop := ∀ e ∈ d.entries, e.2 ≠ []

theorem Tight.add {d : Dependencies} (hd : d.Tight) (path name : String) :
    (d.add path name).Tight := by
  obtain ⟨entries⟩ := d
  simp only [Tight, Dependencies.add] at hd ⊢
  fun_induction addEntry path name entries with
  | case1 => simp
  | case2 p ns rest hlt => exact List.forall_mem_cons.mpr ⟨by simp, hd⟩
  | case3 p ns rest hlt heq =>
    refine List.forall_mem_cons.mpr ⟨?_, (List.forall_mem_cons.mp hd).2⟩
    exact List.ne_nil_of_mem (mem_insertName.mpr (Or.inl rfl))
  | case4 p ns rest hlt hne ih =>
    obtain ⟨hns, hrest⟩ := List.forall_mem_cons.mp hd
    exact List.forall_mem_cons.mpr ⟨hns, ih hrest⟩

end Dependencies

end TypeLoom.Declaration
