import TypeLoom.Proofs.Collection.Findings

/-!
# Operation roots, wherever a document binds them

The type that serves as the root of an operation is read off a document as a whole: it is named by
the first `schema` block that binds the operation, or by convention if there is no such block at
all. While a document is collected, the first root of an operation is kept and every later one is
reported together with it. Main statement: after the walk every field has the operation of its type
by the roots of the whole document, and each later binding has one problem.
-/

namespace TypeLoom.Schema.Document

open Collected

/-- The roots that the `schema` blocks of a document bind to an operation, in order. A block has one
entry for each operation, and binds those that it has a type for. -/
def rootsOf (d : Document) (o : Operation) : List Root :=
  d.definitions.filterMap fun x =>
    match x.definition, o with
    | .schema b, .query => b.query.map fun type => ⟨.query, type, ⟨x.file, b.position⟩⟩
    | .schema b, .mutation => b.mutation.map fun type => ⟨.mutation, type, ⟨x.file, b.position⟩⟩
    | .schema b, .subscription =>
      b.subscription.map fun type => ⟨.subscription, type, ⟨x.file, b.position⟩⟩
    | _, _ => none

/-- The names of root types without a `schema` block. -/
def customaryRoot : Operation → String
  | .query => "Query"
  | .mutation => "Mutation"
  | .subscription => "Subscription"

/-- Whether an object type of a name is defined or extended anywhere. -/
def hasObject (d : Document) (name : String) : Bool :=
  (d.definedTypes ++ d.extendedTypes).any fun t => t.isOf .object && t.declaration.name == name

/-- The type that serves as the root of an operation: the one that was bound first, or, in a
document without a `schema` block, the object type of the conventional name. -/
def root? (d : Document) (o : Operation) : Option String :=
  if d.definitions.any isSchemaBlock then (d.rootsOf o).head?.map (·.type)
  else if d.hasObject (customaryRoot o) then some (customaryRoot o)
  else none

/-- The operation a type belongs to; all but the other two roots belong to queries. -/
def operationOf (d : Document) (type : String) : Operation :=
  if d.root? .mutation = some type then .mutation
  else if d.root? .subscription = some type then .subscription
  else .query

theorem filter_roots (d : Document) (o : Operation) :
    d.roots.filter (·.operation == o) = d.rootsOf o := by
  rw [roots, rootsOf, List.filter_flatMap, List.filterMap_eq_flatMap_toList]
  refine List.flatMap_congr fun x _ => ?_
  unfold definitionRoots
  cases x.definition with
  | schema b =>
    obtain ⟨position, directives, query, mutation, subscription⟩ := b
    cases o <;> cases query <;> cases mutation <;> cases subscription <;> rfl
  | _ => cases o <;> rfl

theorem roots_eq_nil {d : Document} (h : d.definitions.any isSchemaBlock = false) :
    d.roots = [] := by
  refine List.flatMap_eq_nil_iff.mpr fun x hx => ?_
  have hother : isSchemaBlock x = false := by simpa using List.any_eq_false.mp h x hx
  unfold isSchemaBlock at hother
  unfold definitionRoots
  cases hdefinition : x.definition <;> simp [hdefinition] at hother ⊢

end TypeLoom.Schema.Document

namespace TypeLoom.Collected

open Schema

/-- Whether a problem is that an operation was bound before. -/
def isRebinding (o : Operation) : Problem → Bool
  | .duplicateOperation bound _ _ => bound == o
  | _ => false

/-- One problem for each root of an operation but the first, with the places of both. -/
def rebindings (o : Operation) : List Root → List Problem
  | [] => []
  | first :: later => later.map fun r => .duplicateOperation o first.location r.location

theorem rebindings_concat (o : Operation) (rs : List Root) (r : Root) :
    rebindings o (rs ++ [r]) = rebindings o rs ++
      (rs.head?.map fun first => .duplicateOperation o first.location r.location).toList := by
  cases rs <;> simp [rebindings]

/-- What is wrong with a request is the fault of its directive. -/
theorem isRebinding_typeProblems (o : Operation) (file : Path) (t : TypeDeclaration) :
    ∀ p ∈ typeProblems file t, isRebinding o p = false := by
  have hkind : ∀ d q, isRebinding o (directiveProblem file d q) = false := fun _ _ => rfl
  unfold typeProblems
  split
  · unfold requestProblems
    split
    · simp
    · split
      · exact List.forall_mem_singleton.mpr (hkind _ _)
      · split
        · exact List.forall_mem_singleton.mpr (hkind _ _)
        · simp
  · simp

/-- What is wrong with a type or its fields is no matter of roots. -/
theorem isRebinding_definitionProblems (o : Operation) (x : SourcedDefinition) :
    ∀ p ∈ definitionProblems x, isRebinding o p = false := by
  intro p hp
  rcases List.mem_append.mp hp with hp | hp
  · obtain ⟨t, -, hp⟩ := List.mem_flatMap.mp hp
    exact isRebinding_typeProblems o x.file t p hp
  · obtain ⟨f, -, hp⟩ := List.mem_filterMap.mp hp
    have hrefusal := f.isRefusal_of_problem? hp
    cases p with
    | directiveArgument d l q => rfl
    | _ => cases hrefusal

/-- What a context knows after the roots `seen` were to be bound: of each operation the first one,
and a problem for each of the others. -/
structure Binds (c : Context) (seen : List Root) : Prop where
  first : ∀ o, c.roots.find? (·.operation == o) = seen.find? (·.operation == o)
  problems : ∀ o, c.problems.filter (isRebinding o) =
    rebindings o (seen.filter (·.operation == o))

namespace Binds

variable {c c' : Context} {seen : List Root}

theorem congr (h : Binds c seen) (hroots : c'.roots = c.roots)
    (hproblems : c'.problems = c.problems) : Binds c' seen where
  first := hroots ▸ h.first
  problems := hproblems ▸ h.problems

theorem bindRoot (h : Binds c seen) (r : Root) : Binds (c.bindRoot r) (seen ++ [r]) := by
  have hbefore : (seen.filter (·.operation == r.operation)).head? =
      c.roots.find? (·.operation == r.operation) := by
    rw [List.head?_filter, h.first]
  unfold Context.bindRoot
  cases hbound : c.roots.find? (·.operation == r.operation) with
  | none =>
    -- The first root of its operation is kept.
    rw [hbound] at hbefore
    constructor
    · intro o
      simp only [List.find?_append, h.first]
    · intro o
      rw [h.problems]
      by_cases ho : r.operation = o
      · subst ho
        simp [List.head?_eq_none_iff.mp hbefore, rebindings]
      · simp [ho]
  | some first =>
    rw [hbound] at hbefore
    have hproblems : (c.addProblem
        (.duplicateOperation r.operation first.location r.location)).problems =
        c.problems ++ [.duplicateOperation r.operation first.location r.location] := rfl
    constructor
    · intro o
      have hkept := h.first o
      by_cases ho : r.operation = o
      · subst ho
        rw [hbound] at hkept
        rw [List.find?_append, ← hkept, Option.some_or]
        exact hbound
      · rw [List.find?_append, ← hkept]
        simp [Context.addProblem, Context.addProblems, ho]
    · intro o
      rw [hproblems, List.filter_append, h.problems]
      by_cases ho : r.operation = o
      · subst ho
        simp [isRebinding, rebindings_concat, hbefore]
      · simp [isRebinding, ho]

theorem foldl_bindRoot (h : Binds c seen) (rs : List Root) :
    Binds (rs.foldl Context.bindRoot c) (seen ++ rs) := by
  induction rs generalizing c seen with
  | nil => simpa using h
  | cons r rs ih =>
    have hrest := ih (h.bindRoot r)
    rwa [List.append_assoc] at hrest

/-- A definition binds its own roots, after those that came before it. -/
theorem collect (h : Binds c seen) (i : Nat) (x : SourcedDefinition) :
    Binds (c.collect i x) (seen ++ definitionRoots x) := by
  cases hblock : isSchemaBlock x with
  | true =>
    unfold isSchemaBlock at hblock
    cases hx : x.definition with
    | schema b =>
      have hmarked : Binds c.markSchemaBlock seen := h.congr rfl rfl
      simpa [Context.collect, definitionRoots, hx] using
        hmarked.foldl_bindRoot (Context.blockRoots x.file b)
    | _ => simp [hx] at hblock
  | false =>
    have hnone : definitionRoots x = [] := by
      unfold isSchemaBlock at hblock
      unfold definitionRoots
      cases hx : x.definition <;> simp [hx] at hblock ⊢
    have hfound := c.finds_collect_other i hblock
    rw [hnone, List.append_nil]
    constructor
    · intro o
      rw [hfound.roots, List.append_nil, h.first]
    · intro o
      have hother : (definitionProblems x).filter (isRebinding o) = [] := by
        rw [List.filter_eq_nil_iff]
        intro p hp
        simp [isRebinding_definitionProblems o x p hp]
      rw [hfound.problems, List.filter_append, hother, List.append_nil, h.problems]

theorem foldl_collect (h : Binds c seen) (xs : List SourcedDefinition) (n : Nat) :
    Binds ((xs.zipIdx n).foldl (fun c (x, i) => c.collect i x) c)
      (seen ++ xs.flatMap definitionRoots) := by
  induction xs generalizing c seen n with
  | nil => simpa using h
  | cons x xs ih =>
    have hrest := ih (h.collect n x) (n + 1)
    rwa [List.append_assoc] at hrest

end Binds

section

variable (settings : Generation.Settings) (loaded : Option Document) (d : Document)

theorem binds_collectDocument :
    Binds ((Context.uncollected settings loaded).collectDocument d) d.roots := by
  have hnone : Binds (Context.uncollected settings loaded) [] := ⟨fun _ => rfl, fun _ => rfl⟩
  rw [Context.collectDocument_eq]
  exact (hnone.foldl_collect d.definitions 0).congr rfl rfl

theorem conventionalRoot_eq (o : Operation) : o.conventionalRoot = Document.customaryRoot o := by
  cases o <;> rfl

theorem Collects.isObjectName_eq {c : Context} {d : Document} (hc : Collects c d) (name : String) :
    c.isObjectName name = d.hasObject name := by
  have hdefined : c.objects.hasKey name =
      d.definedTypes.any fun t => t.isOf .object && t.declaration.name == name := by
    rw [Bool.eq_iff_iff, Grouping.hasKey, List.any_eq_true, List.any_eq_true]
    constructor
    · rintro ⟨e, he, hname⟩
      obtain ⟨t, ht, hkey⟩ := hc.objects.mem_keys.mp (Grouping.mem_keys_of_mem he hname)
      obtain ⟨ht, hkind⟩ := List.mem_filter.mp ht
      exact ⟨t, ht, by simp [hkind, hkey]⟩
    · rintro ⟨t, ht, hboth⟩
      obtain ⟨hkind, hname⟩ := Bool.and_eq_true_iff.mp hboth
      have hmem : name ∈ c.objects.keys :=
        hc.objects.mem_keys.mpr ⟨t, List.mem_filter.mpr ⟨ht, hkind⟩, beq_iff_eq.mp hname⟩
      obtain ⟨e, he, rfl⟩ := List.mem_map.mp hmem
      exact ⟨e, he, BEq.rfl⟩
  have hextended : (c.extensions.get name).any (·.declaration.body.fieldedKind? == some .object) =
      d.extendedTypes.any fun t => t.isOf .object && t.declaration.name == name := by
    rw [hc.extensions.get_eq, List.any_filter]
    exact congrArg _ (funext fun t => Bool.and_comm _ _)
  rw [Context.isObjectName, Document.hasObject, List.any_append, hdefined, hextended]

/-- The roots known at the end are those of the document. -/
theorem root?_collectDocument (o : Operation) :
    ((Context.uncollected settings loaded).collectDocument d).root? o = d.root? o := by
  have hbinds := (binds_collectDocument settings loaded d).first o
  have hblock := (Context.roots_collectDocument settings loaded d).2
  have hobject := (collects_collectDocument settings loaded d).isObjectName_eq o.conventionalRoot
  unfold Context.root? Document.root?
  rw [hbinds, hblock, hobject, conventionalRoot_eq, ← List.head?_filter, d.filter_roots]
  cases hany : d.definitions.any isSchemaBlock with
  | true => cases (d.rootsOf o).head? <;> rfl
  | false =>
    rw [← d.filter_roots, Document.roots_eq_nil hany]
    rfl

theorem operationOf_collectDocument (type : String) :
    ((Context.uncollected settings loaded).collectDocument d).operationOf type =
      d.operationOf type := by
  rw [Context.operationOf, Document.operationOf, root?_collectDocument, root?_collectDocument]
  simp only [beq_iff_eq]

end

/-- What a context knows of the operations of a document. -/
structure OperationsFollow (c : Context) (d : Document) : Prop where
  /-- Every field of an object or interface type has the operation of its type. -/
  fields : ∀ f ∈ d.declaredFields, f.source.isOutput = true →
    ∃ m, c.metadataOf? f.id = some m ∧ m.operation = d.operationOf f.parent
  roots : ∀ o, c.root? o = d.root? o
  /-- Each binding of an operation but the first has one problem. -/
  rebound : ∀ o, c.problems.filter (isRebinding o) = rebindings o (d.rootsOf o)

/-- Wherever the `schema` blocks of a document stand, its fields have the operations of its final
roots, and every binding that comes too late is reported with the first one. -/
theorem collectDocument_operations (settings : Generation.Settings) (loaded : Option Document)
    (d : Document) :
    OperationsFollow ((Context.uncollected settings loaded).collectDocument d) d where
  fields f hf hout := by
    obtain ⟨m, hm, hoperation⟩ := operation_of_declared settings loaded hf hout
    exact ⟨m, hm, hoperation.trans (operationOf_collectDocument settings loaded d f.parent)⟩
  roots := root?_collectDocument settings loaded d
  rebound o := by
    rw [(binds_collectDocument settings loaded d).problems, d.filter_roots]

/-- A type with a conventional name, before two blocks that bind its operation. -/
def lateBlocks : List (Path × String) :=
  [(⟨"a.graphql"⟩, "type Mutation \x7b a: Int \x7d type Ops \x7b b: Int \x7d"),
    (⟨"b.graphql"⟩, "schema \x7b mutation: Ops \x7d schema \x7b mutation: Mutation \x7d")]

/-- A block after the types turns the conventional roots off, and the second one comes too late. -/
theorem collectDocument_operations_late_blocks :
    ∃ d, (Document.parseAll lateBlocks).toOption = some d ∧
      OperationsFollow ((Context.uncollected .empty none).collectDocument d) d ∧
      ["Query", "Ops", "Mutation"].map d.operationOf = [.query, .mutation, .query] ∧
      rebindings .mutation (d.rootsOf .mutation) =
        [.duplicateOperation .mutation ⟨⟨"b.graphql"⟩, ⟨1, 1⟩⟩ ⟨⟨"b.graphql"⟩, ⟨1, 26⟩⟩] := by
  have hfacts : (Document.parseAll lateBlocks).toOption.map (fun d =>
      (["Query", "Ops", "Mutation"].map d.operationOf,
        rebindings .mutation (d.rootsOf .mutation))) =
      some ([.query, .mutation, .query],
        [.duplicateOperation .mutation ⟨⟨"b.graphql"⟩, ⟨1, 1⟩⟩ ⟨⟨"b.graphql"⟩, ⟨1, 26⟩⟩]) := by
    decide +kernel
  obtain ⟨d, hd, hpair⟩ := Option.map_eq_some_iff.mp hfacts
  obtain ⟨hoperations, hrebound⟩ := Prod.mk.inj hpair
  exact ⟨d, hd, collectDocument_operations .empty none d, hoperations,
    hrebound⟩

end TypeLoom.Collected
