import TypeLoom.Proofs.Emission.Unresolved

/-!
# How a schema type is translated

The positions of a schema type are its lists, from the outermost one in, and the name inside them. A
position is optional unless it stands directly under a non-null wrapper, of which two in a row count
as one. Main statement: whatever was mapped before, mapping a type gives an array for each list and
one wrapper for each optional position, reports the name inside the type if it does not stand for
one type, and needs the module that defines that name and, for optional positions, the shared
wrapper.
-/

namespace TypeLoom.Generation

open Schema Declaration Collected

/-- Which positions of a type are optional, its lists from the outside in and then its name, if the
type stands directly under a non-null wrapper or not. -/
def optionals (present : Bool) : TypeRef → List Bool
  | .nonNull t => optionals true t
  | .named _ => [!present]
  | .list t => (!present) :: optionals false t

/-- What stands at a position, in the optional wrapper unless it is known to be present. -/
def wrapped (present : Bool) (t : TypeExpr) : TypeExpr := if present then t else .maybe t

/-- A type with `inner` for the name inside it. -/
def translation (inner : TypeExpr) (present : Bool) : TypeRef → TypeExpr
  | .nonNull t => translation inner true t
  | .named _ => wrapped present inner
  | .list t => wrapped present (.array (translation inner false t))

/-- The types that scalars stand for. -/
def scalarTypes : List (String × TypeExpr) :=
  [("Boolean", .boolean), ("Float", .number), ("ID", .string), ("Int", .number),
    ("String", .string)]

section

variable (c : Context) (n : String)

/-- The definitions that a context has under a name: those of objects, of interfaces and of inputs,
in this order. -/
def definitionsNamed : List SourcedType :=
  [c.objects, c.interfaces, c.inputs].flatMap fun table => (table.lookup n).elim [] id

/-- Whether a name is that of a scalar or has one definition. -/
def Known : Prop := n ∈ builtinScalars ∨ (definitionsNamed c n).length = 1

/-- What a name stands for: a scalar's type, itself if it has one definition, and else anything. -/
def nameType : TypeExpr :=
  match scalarTypes.lookup n, definitionsNamed c n with
  | some t, _ => t
  | none, [_] => .named n
  | none, _ => .any

/-- A file that is the only one to define a name, which is no scalar's. -/
def DefinedIn (file : Path) : Prop :=
  n ∉ builtinScalars ∧ ∃ t, definitionsNamed c n = [t] ∧ t.file = file

end

/-- What mapping a type adds to what was mapped before. -/
structure Translates (c : Context) (paths : OutputPaths) (l : Location) (t : TypeRef) {α : Type}
    (before : Mapped α) (after : Mapped TypeExpr) : Prop where
  value : after.value = translation (nameType c t.innermost) false t
  known : Known c t.innermost → after.problems = before.problems
  unknown : ¬Known c t.innermost → nameType c t.innermost = .any ∧
    ∃ p, after.problems = before.problems ++ [p] ∧
      (definitionsNamed c t.innermost = [] ∧ p = .unresolvedType t.innermost l ∨
        2 ≤ (definitionsNamed c t.innermost).length ∧ p = .ambiguousType t.innermost l
          ((definitionsNamed c t.innermost).map fun d => ⟨d.file, d.declaration.position⟩))
  imports : ∀ path name, after.dependencies.Has path name ↔ before.dependencies.Has path name ∨
    (∃ file, DefinedIn c t.innermost file ∧ path = paths.typesImportPath file ∧
      name = t.innermost) ∨
    (true ∈ optionals false t ∧ path = paths.sharedImportPath ∧ name = TypeExpr.maybeName)

/-! ### The name inside -/

theorem builtinScalar?_eq_lookup (n : String) : builtinScalar? n = scalarTypes.lookup n := by
  unfold builtinScalar? scalarTypes
  split
  case h_6 hboolean hid hstring hfloat hint =>
    simp [List.lookup_cons, beq_false_of_ne hboolean, beq_false_of_ne hid, beq_false_of_ne hstring,
      beq_false_of_ne hfloat, beq_false_of_ne hint]
  all_goals rfl

theorem lookup_eq_none_iff {n : String} : scalarTypes.lookup n = none ↔ n ∉ builtinScalars := by
  rw [← builtinScalar?_eq_lookup, ← builtinScalar?_isSome_iff, Bool.not_eq_true,
    Option.isSome_eq_false_iff, Option.isNone_iff_eq_none]

/-- The ways in which a name is mapped: as a scalar, as the one type it names, or not at all. -/
inductive NameOutcome (c : Context) (paths : OutputPaths) (l : Location) (n : String) :
    Mapped TypeExpr → Prop
  | scalar {t : TypeExpr} (h : scalarTypes.lookup n = some t) : NameOutcome c paths l n ⟨t, [], []⟩
  | defined {t : SourcedType} (h : scalarTypes.lookup n = none) (hd : definitionsNamed c n = [t]) :
      NameOutcome c paths l n ⟨.named n, [(paths.typesImportPath t.file, n)], []⟩
  | missing (h : scalarTypes.lookup n = none) (hd : definitionsNamed c n = []) :
      NameOutcome c paths l n ⟨.any, [], [.unresolvedType n l]⟩
  | ambiguous (h : scalarTypes.lookup n = none) (hd : 2 ≤ (definitionsNamed c n).length) :
      NameOutcome c paths l n
        ⟨.any, [], [.ambiguousType n l ((definitionsNamed c n).map (·.location))]⟩

section

variable (c : Context) (paths : OutputPaths) (l : Location) (n : String)

theorem declarationsOf_eq : c.declarationsOf n = definitionsNamed c n := by
  have hget (g : Grouping String SourcedType) : g.get n = (g.lookup n).elim [] id := by
    unfold Grouping.get
    cases g.lookup n <;> rfl
  simp [Context.declarationsOf, definitionsNamed, hget]

theorem nameOutcome_mapName : NameOutcome c paths l n (mapName c paths l n) := by
  unfold mapName
  rw [builtinScalar?_eq_lookup]
  cases h : scalarTypes.lookup n with
  | some t => exact .scalar h
  | none =>
    unfold Context.lookup
    rw [declarationsOf_eq]
    match hd : definitionsNamed c n with
    | [] => exact .missing h hd
    | [t] => exact .defined h hd
    | t :: u :: ts =>
      have houtcome : NameOutcome c paths l n _ := .ambiguous h (by rw [hd]; simp)
      rwa [hd] at houtcome

end

section

variable {c : Context} {paths : OutputPaths} {l : Location} {n : String} {m : Mapped TypeExpr}

theorem NameOutcome.value (h : NameOutcome c paths l n m) : m.value = nameType c n := by
  unfold nameType
  cases h with
  | scalar h => rw [h]
  | defined h hd => rw [h, hd]
  | missing h hd => rw [h, hd]
  | ambiguous h hd =>
    rw [h]
    split <;> simp_all

theorem NameOutcome.known (h : NameOutcome c paths l n m) (hknown : Known c n) :
    m.problems = [] := by
  cases h with
  | scalar | defined => rfl
  | missing h hd =>
    rw [lookup_eq_none_iff] at h
    simp [Known, h, hd] at hknown
  | ambiguous h hd =>
    rw [lookup_eq_none_iff] at h
    have hone := hknown.resolve_left h
    omega

theorem NameOutcome.unknown (h : NameOutcome c paths l n m) (hunknown : ¬Known c n) :
    m.value = .any ∧ ∃ p, m.problems = [p] ∧
      (definitionsNamed c n = [] ∧ p = .unresolvedType n l ∨
        2 ≤ (definitionsNamed c n).length ∧
          p = .ambiguousType n l ((definitionsNamed c n).map (·.location))) := by
  cases h with
  | scalar h =>
    refine absurd (.inl ?_) hunknown
    by_contra hscalar
    rw [lookup_eq_none_iff.mpr hscalar] at h
    cases h
  | defined h hd => exact absurd (.inr (by rw [hd]; rfl)) hunknown
  | missing h hd => exact ⟨rfl, _, rfl, .inl ⟨hd, rfl⟩⟩
  | ambiguous h hd => exact ⟨rfl, _, rfl, .inr ⟨hd, rfl⟩⟩

theorem NameOutcome.mem_needs (h : NameOutcome c paths l n m) (path name : String) :
    (path, name) ∈ m.needs ↔
      ∃ file, DefinedIn c n file ∧ path = paths.typesImportPath file ∧ name = n := by
  cases h with
  | scalar h =>
    have hscalar : n ∈ builtinScalars := by
      by_contra hscalar
      rw [lookup_eq_none_iff.mpr hscalar] at h
      cases h
    simp [DefinedIn, hscalar]
  | defined h hd => simp [DefinedIn, lookup_eq_none_iff.mp h, hd]
  | missing h hd => simp [DefinedIn, hd]
  | ambiguous h hd =>
    refine iff_of_false List.not_mem_nil ?_
    rintro ⟨file, ⟨-, t, ht, -⟩, -⟩
    rw [ht] at hd
    simp at hd

end

/-! ### Wrappers -/

section

variable (c : Context) (paths : OutputPaths) (l : Location) (t : TypeRef)

theorem value_mapType :
    (mapType c paths l t).value = translation (mapName c paths l t.innermost).value false t ∧
      (mapPresent c paths l t).value =
        translation (mapName c paths l t.innermost).value true t := by
  induction t with
  | named n => exact ⟨rfl, rfl⟩
  | list item ih =>
    simp [mapType, mapPresent, TypeRef.innermost, translation, wrapped, ih.1]
  | nonNull inner ih => exact ⟨ih.2, ih.2⟩

/-- A type needs what the name inside it needs and, for its optional positions, the wrapper. -/
theorem mem_needs_mapType (need : String × String) :
    (need ∈ (mapType c paths l t).needs ↔ need ∈ (mapName c paths l t.innermost).needs ∨
        true ∈ optionals false t ∧ need = (paths.sharedImportPath, TypeExpr.maybeName)) ∧
      (need ∈ (mapPresent c paths l t).needs ↔ need ∈ (mapName c paths l t.innermost).needs ∨
        true ∈ optionals true t ∧ need = (paths.sharedImportPath, TypeExpr.maybeName)) := by
  have hshared : (needShared paths TypeExpr.maybeName).needs =
      [(paths.sharedImportPath, TypeExpr.maybeName)] := rfl
  induction t with
  | named n => simp [mapType, mapPresent, TypeRef.innermost, optionals, hshared]
  | list item ih =>
    simp [mapType, mapPresent, TypeRef.innermost, optionals, hshared, ih.1]
    tauto
  | nonNull inner ih => exact ⟨ih.2, ih.2⟩

end

/-- Mapping a type is exact, whatever was mapped before it. -/
theorem mapType_translates (c : Context) (paths : OutputPaths) (l : Location) (t : TypeRef)
    {α : Type} (before : Mapped α) :
    Translates c paths l t before (before >>= fun _ => mapType c paths l t) := by
  have hname := nameOutcome_mapName c paths l t.innermost
  have hproblems := (problems_mapType c paths l t).1
  constructor
  case value =>
    rw [Mapped.value_bind, (value_mapType c paths l t).1, hname.value]
  case known =>
    intro hknown
    rw [Mapped.problems_bind, hproblems, hname.known hknown, List.append_nil]
  case unknown =>
    intro hunknown
    obtain ⟨hany, p, hp, hcause⟩ := hname.unknown hunknown
    refine ⟨hname.value.symm.trans hany, p, ?_, hcause⟩
    rw [Mapped.problems_bind, hproblems, hp]
  case imports =>
    intro path name
    rw [Mapped.has_dependencies, Mapped.has_dependencies, Mapped.needs_bind, List.mem_append,
      (mem_needs_mapType c paths l t (path, name)).1, hname.mem_needs, Prod.mk.injEq]

/-- The list of a type that is defined once, and a type that is defined as an object and as an
input. -/
theorem mapType_translates_of_three :
    let typed (name : String) (body : TypeBody) : SourcedType :=
      ⟨⟨name ++ ".graphql"⟩, { (default : TypeDeclaration) with name, body }⟩
    let c : Context := ((Context.fresh.addType (typed "User" (.object [] []))).addType
      (typed "Post" (.object [] []))).addType (typed "Post" (.input []))
    let users : TypeRef := .list (.nonNull (.named "User"))
    let posts : TypeRef := .nonNull (.named "Post")
    (∀ t ∈ [users, posts], Translates c default default t (pure ())
      (pure () >>= fun _ => mapType c default default t)) ∧
      DefinedIn c "User" ⟨"User.graphql"⟩ ∧
      translation (nameType c "User") false users = .maybe (.array (.named "User")) ∧
      (definitionsNamed c "Post").length = 2 ∧
      translation (nameType c "Post") false posts = .any :=
  ⟨fun t _ => mapType_translates _ _ _ t (pure ()), ⟨by decide, _, rfl, rfl⟩, rfl, rfl, rfl⟩

end TypeLoom.Generation
