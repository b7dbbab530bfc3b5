import TypeLoom.Proofs.Collection.Valid

/-!
# Problems, roots and operations of a document

What collecting finds besides types and fields: what is wrong with directives, and the operation
roots that `schema` blocks bind. Main statements: if no operation is bound twice, a document has the
problems and the roots of its definitions, one after the other; and every field is given the
operation of its type by the roots known at the end.
-/

namespace TypeLoom.Collected

open Schema

/-- A field without its place in the document. -/
def DeclaredField.bare (f : DeclaredField) : DeclaredField := { f with id := ⟨0, 0⟩ }

/-- The fields of a definition, wherever it stands in the document. -/
def bareFields (x : SourcedDefinition) : List DeclaredField :=
  ((declaration? x.definition).toList).flatMap fun t => (sources t.body).map fun s =>
    ⟨⟨0, 0⟩, x.file, t, s⟩

/-- What is wrong with the directives of a definition. -/
def definitionProblems (x : SourcedDefinition) : List Problem :=
  ((declaration? x.definition).toList).flatMap (typeProblems x.file) ++
    (bareFields x).filterMap (·.problem?)

/-- The roots that a definition binds. -/
def definitionRoots (x : SourcedDefinition) : List Root :=
  match x.definition with
  | .schema b => Context.blockRoots x.file b
  | _ => []

def isSchemaBlock (x : SourcedDefinition) : Bool :=
  match x.definition with
  | .schema _ => true
  | _ => false

theorem bareFields_eq (i : Nat) (x : SourcedDefinition) :
    (declaredIn i x).map (·.bare) = bareFields x :=
  declaredIn_map (fun file t s => DeclaredField.mk ⟨0, 0⟩ file t s) i x

/-- What is wrong with a field does not depend on its place. -/
theorem problems_declaredIn (i : Nat) (x : SourcedDefinition) :
    (declaredIn i x).filterMap (·.problem?) = (bareFields x).filterMap (·.problem?) := by
  rw [← bareFields_eq i x, List.filterMap_map]
  rfl

/-- What a stretch of the walk from `c` to `c'` finds: problems, roots, and whether there is a
`schema` block. -/
structure Finds (c c' : Context) (ps : List Problem) (rs : List Root) (block : Bool) : Prop where
  problems : c'.problems = c.problems ++ ps
  roots : c'.roots = c.roots ++ rs
  block : c'.hasSchemaBlock = (c.hasSchemaBlock || block)

namespace Finds

variable {c c' c'' : Context} {ps qs : List Problem} {rs ss : List Root} {b b' : Bool}

theorem refl (c : Context) : Finds c c [] [] false := by
  constructor <;> simp

theorem trans (h : Finds c c' ps rs b) (h' : Finds c' c'' qs ss b') :
    Finds c c'' (ps ++ qs) (rs ++ ss) (b || b') where
  problems := by rw [h'.problems, h.problems, List.append_assoc]
  roots := by rw [h'.roots, h.roots, List.append_assoc]
  block := by rw [h'.block, h.block, Bool.or_assoc]

end Finds

namespace Context

variable (c : Context)

theorem finds_addProblems (ps : List Problem) : Finds c (c.addProblems ps) ps [] false := by
  constructor <;> simp [addProblems]

theorem finds_collectDeclared (f : DeclaredField) :
    Finds c (c.collectDeclared f) f.problem?.toList [] false := by
  rw [collectDeclared_adds]
  constructor <;> simp

theorem finds_foldl_collectDeclared (fs : List DeclaredField) :
    Finds c (fs.foldl collectDeclared c) (fs.filterMap (·.problem?)) [] false := by
  induction fs generalizing c with
  | nil => exact Finds.refl c
  | cons f fs ih =>
    have hstep := (c.finds_collectDeclared f).trans (ih (c.collectDeclared f))
    have hcons : (f :: fs).filterMap (·.problem?) =
        f.problem?.toList ++ fs.filterMap (·.problem?) := by
      cases h : f.problem? <;> simp [h]
    rw [hcons]
    exact hstep

theorem finds_collectFields (i : Nat) (file : Path) (t : TypeDeclaration) :
    Finds c (c.collectFields file i t)
      (typeProblems file t ++ (declaredBy i file t).filterMap (·.problem?)) [] false := by
  rw [collectFields_eq]
  exact (c.finds_addProblems _).trans (finds_foldl_collectDeclared _ _)

theorem finds_addType (t : SourcedType) : Finds c (c.addType t) [] [] false := by
  unfold addType
  split <;> constructor <;> simp

theorem finds_addExtension (t : SourcedType) : Finds c (c.addExtension t) [] [] false := by
  unfold addExtension
  split <;> constructor <;> simp

/-- Roots of operations that have none yet are bound as they come. -/
theorem finds_foldl_bindRoot {rs : List Root}
    (h : ((c.roots ++ rs).map (·.operation)).Nodup) :
    Finds c (rs.foldl bindRoot c) [] rs false := by
  induction rs generalizing c with
  | nil => exact Finds.refl c
  | cons r rs ih =>
    have hfree : c.roots.find? (·.operation == r.operation) = none := by
      rw [List.find?_eq_none]
      intro s hs hsame
      rw [List.map_append, List.nodup_append] at h
      exact h.2.2 _ (List.mem_map_of_mem hs) _ (List.mem_map_of_mem List.mem_cons_self)
        (beq_iff_eq.mp hsame)
    have hbind : c.bindRoot r = { c with roots := c.roots ++ [r] } := by
      rw [bindRoot, hfree]
    have hone : Finds c (c.bindRoot r) [] [r] false := by
      rw [hbind]
      constructor <;> simp
    refine hone.trans (ih (c.bindRoot r) ?_)
    rw [hone.roots, List.append_assoc]
    exact h

/-- A definition that is no `schema` block binds no roots, whatever is bound already. -/
theorem finds_collect_other (i : Nat) {x : SourcedDefinition} (h : isSchemaBlock x = false) :
    Finds c (c.collect i x) (definitionProblems x) [] false := by
  have hproblems := problems_declaredIn i x
  unfold collect
  cases hx : x.definition with
  | schema b => simp [isSchemaBlock, hx] at h
  | directive e =>
    simpa [definitionProblems, bareFields, declaration?, hx] using Finds.refl c
  | type t =>
    have hfound := (c.finds_collectFields i x.file t).trans (finds_addType _ ⟨x.file, t⟩)
    have hone : declaredIn i x = declaredBy i x.file t := by simp [declaredIn, declaration?, hx]
    rw [← hone, hproblems] at hfound
    simpa [definitionProblems, declaration?, hx] using hfound
  | extension t =>
    have hfound := (c.finds_collectFields i x.file t).trans (finds_addExtension _ ⟨x.file, t⟩)
    have hone : declaredIn i x = declaredBy i x.file t := by simp [declaredIn, declaration?, hx]
    rw [← hone, hproblems] at hfound
    simpa [definitionProblems, declaration?, hx] using hfound

/-- A definition adds its own problems and roots. -/
theorem finds_collect (i : Nat) {x : SourcedDefinition}
    (h : ((c.roots ++ definitionRoots x).map (·.operation)).Nodup) :
    Finds c (c.collect i x) (definitionProblems x) (definitionRoots x) (isSchemaBlock x) := by
  cases hblock : isSchemaBlock x with
  | false =>
    have hnone : definitionRoots x = [] := by
      cases hx : x.definition <;> simp [isSchemaBlock, definitionRoots, hx] at hblock ⊢
    rw [hnone]
    exact c.finds_collect_other i hblock
  | true =>
    unfold collect
    cases hx : x.definition with
    | schema b =>
      have hmark : Finds c c.markSchemaBlock [] [] true := by
        constructor <;> simp [markSchemaBlock]
      have hroots : definitionRoots x = blockRoots x.file b := by simp [definitionRoots, hx]
      rw [hroots] at h
      have hbound := hmark.trans (c.markSchemaBlock.finds_foldl_bindRoot h)
      simpa [definitionProblems, hroots, bareFields, declaration?, hx] using hbound
    | _ => simp [isSchemaBlock, hx] at hblock

theorem finds_foldl_collect (xs : List SourcedDefinition) (n : Nat)
    (h : ((c.roots ++ xs.flatMap definitionRoots).map (·.operation)).Nodup) :
    Finds c ((xs.zipIdx n).foldl (fun c (x, i) => c.collect i x) c)
      (xs.flatMap definitionProblems) (xs.flatMap definitionRoots) (xs.any isSchemaBlock) := by
  induction xs generalizing c n with
  | nil => exact Finds.refl c
  | cons x xs ih =>
    rw [List.flatMap_cons, ← List.append_assoc] at h
    have hone := c.finds_collect n (x := x) (by
      rw [List.map_append] at h
      exact (List.nodup_append.mp h).1)
    have hrest := ih (c.collect n x) (n + 1) (by rwa [hone.roots])
    exact hone.trans hrest

end Context

end TypeLoom.Collected

namespace TypeLoom.Schema.Document

open Collected

/-- The operation roots that a document binds, in order. -/
def roots (d : Document) : List Root := d.definitions.flatMap definitionRoots

/-- Whether no operation root is bound twice. -/
def BindsOnce (d : Document) : Prop := (d.roots.map (·.operation)).Nodup

instance (d : Document) : Decidable d.BindsOnce :=
  inferInstanceAs (Decidable (d.roots.map (·.operation)).Nodup)

end TypeLoom.Schema.Document

namespace TypeLoom.Collected

open Schema

variable (settings : Generation.Settings) (loaded : Option Document) {d : Document}

/-- Collecting a document finds the problems and roots of its definitions. -/
theorem finds_collectDocument (h : d.BindsOnce) :
    Finds (Context.uncollected settings loaded)
      ((Context.uncollected settings loaded).collectDocument d)
      (d.definitions.flatMap definitionProblems) d.roots (d.definitions.any isSchemaBlock) := by
  rw [Context.collectDocument_eq]
  have hfound := (Context.uncollected settings loaded).finds_foldl_collect d.definitions 0 h
  exact ⟨hfound.problems, hfound.roots, hfound.block⟩

namespace Context

/-- The roots that are bound once `r` was to be bound too. -/
def bound (roots : List Root) (r : Root) : List Root :=
  if (roots.find? (·.operation == r.operation)).isSome then roots else roots ++ [r]

theorem roots_bindRoot (c : Context) (r : Root) : (c.bindRoot r).roots = bound c.roots r := by
  unfold bindRoot bound
  cases c.roots.find? (·.operation == r.operation) <;> rfl

theorem roots_collect (c : Context) (i : Nat) (x : SourcedDefinition) :
    (c.collect i x).roots = (definitionRoots x).foldl bound c.roots ∧
      (c.collect i x).hasSchemaBlock = (c.hasSchemaBlock || isSchemaBlock x) := by
  cases hx : x.definition with
  | schema b =>
    have hbind : ∀ (rs : List Root) (c : Context),
        (rs.foldl bindRoot c).roots = rs.foldl bound c.roots ∧
          (rs.foldl bindRoot c).hasSchemaBlock = c.hasSchemaBlock := by
      intro rs
      induction rs with
      | nil => exact fun _ => ⟨rfl, rfl⟩
      | cons r rs ih =>
        intro c
        have hkept : (c.bindRoot r).hasSchemaBlock = c.hasSchemaBlock := by
          unfold bindRoot
          split <;> rfl
        rw [List.foldl_cons, List.foldl_cons, ← roots_bindRoot, (ih _).1, (ih _).2]
        exact ⟨rfl, hkept⟩
    have hmarked := hbind (blockRoots x.file b) c.markSchemaBlock
    simpa [collect, definitionRoots, isSchemaBlock, hx, markSchemaBlock] using hmarked
  | _ =>
    have hblock : isSchemaBlock x = false := by simp [isSchemaBlock, hx]
    have hfound := c.finds_collect_other i hblock
    rw [hfound.roots, hfound.block, hblock, List.append_nil, definitionRoots, hx]
    exact ⟨rfl, rfl⟩

/-- Of each operation the first root of a document is bound, and no other. -/
theorem roots_collectDocument (settings : Generation.Settings) (loaded : Option Document)
    (d : Document) :
    ((uncollected settings loaded).collectDocument d).roots = d.roots.foldl bound [] ∧
      ((uncollected settings loaded).collectDocument d).hasSchemaBlock =
        d.definitions.any isSchemaBlock := by
  have hall : ∀ (xs : List SourcedDefinition) (n : Nat) (c : Context),
      ((xs.zipIdx n).foldl (fun c (x, i) => c.collect i x) c).roots =
          (xs.flatMap definitionRoots).foldl bound c.roots ∧
        ((xs.zipIdx n).foldl (fun c (x, i) => c.collect i x) c).hasSchemaBlock =
          (c.hasSchemaBlock || xs.any isSchemaBlock) := by
    intro xs
    induction xs with
    | nil => exact fun _ c => ⟨rfl, (Bool.or_false _).symm⟩
    | cons x xs ih =>
      intro n c
      obtain ⟨hroots, hblock⟩ := roots_collect c n x
      rw [List.zipIdx_cons, List.foldl_cons, (ih _ _).1, (ih _ _).2, hroots, hblock,
        List.flatMap_cons, List.foldl_append, List.any_cons, Bool.or_assoc]
      exact ⟨rfl, rfl⟩
  rw [collectDocument_eq]
  exact hall d.definitions 0 (uncollected settings loaded)

theorem metadataOf?_resolveOperations (c : Context) (id : FieldId) :
    c.resolveOperations.metadataOf? id =
      (c.metadataOf? id).map fun m => { m with operation := c.operationOf m.parent } := by
  simp only [metadataOf?, resolveOperations]
  induction c.metadata with
  | nil => rfl
  | cons e rest ih =>
    obtain ⟨j, m⟩ := e
    simp only [List.map_cons, List.lookup_cons]
    split
    · rfl
    · exact ih

end Context

/-- Every field of an object or interface type has the operation of its type. -/
theorem operation_of_declared {f : DeclaredField} (hf : f ∈ d.declaredFields)
    (hout : f.source.isOutput = true) :
    ∃ m, ((Context.uncollected settings loaded).collectDocument d).metadataOf? f.id = some m ∧
      m.operation =
        ((Context.uncollected settings loaded).collectDocument d).operationOf f.parent := by
  have hplace := ((Context.uncollected settings loaded).walk_collectDocument d).placed
    (nodup_ids d) f hf hout
  obtain ⟨m, hm, hparent⟩ := Option.map_eq_some_iff.mp hplace
  refine ⟨m, hm, ?_⟩
  rw [← (Prod.mk.inj hparent).1]
  rw [Context.collectDocument_eq, Context.metadataOf?_resolveOperations] at hm
  obtain ⟨n, -, rfl⟩ := Option.map_eq_some_iff.mp hm
  rw [Context.collectDocument_eq]
  rfl

end TypeLoom.Collected
