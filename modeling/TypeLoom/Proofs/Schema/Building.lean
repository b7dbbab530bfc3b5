import TypeLoom.Collected.Context
import TypeLoom.Proofs.Schema.Loaded

/-!
# Documents however they are built

A document is built by reading a file, by adding definitions, by joining documents, or by adding one
to what a context has loaded. In whatever order this is done, it lists exactly the files of its
definitions, and it does not matter whether documents are joined one after the other or all at once:
`wellBuilt_of_built`.
-/

namespace TypeLoom.Schema.Document

open Collected

/-- Documents that are made by reading a file, by adding definitions of a file, by joining others,
or by adding one to a context. -/
inductive Built : Document → Prop
  | empty : Built empty
  | parse {file : Path} {content : String} {d : Document} :
    Document.parse file content = .ok d → Built d
  | append {d : Document} (file : Path) (defs : List Definition) :
    Built d → Built (d.append file defs)
  | concat {ds : List Document} : (∀ d ∈ ds, Built d) → Built (concat ds)
  | added {c : Context} {d e : Document} : (∀ f ∈ c.document, Built f) → Built d →
    (c.addDocument d).document = some e → Built e

theorem document_addDocument (c : Context) (d : Document) :
    (c.addDocument d).document = some (c.document.elim d fun e => concat [e, d]) := by
  unfold Context.addDocument
  split <;> simp [*]

theorem Built.indexed {d : Document} (h : Built d) : d.Indexed := by
  induction h with
  | empty => exact indexed_empty
  | parse hparse =>
    unfold Document.parse at hparse
    split at hparse
    · cases hparse
      exact indexed_empty
    · split at hparse
      · cases hparse
        exact indexed_empty.append _ _
      · cases hparse
  | append file defs _ ih => exact ih.append file defs
  | concat _ ih => exact concat_induction indexed_empty (fun _ _ => Indexed.union) ih
  | @added c d e _ _ he ihc ihd =>
    rw [document_addDocument] at he
    cases hc : c.document with
    | none =>
      rw [hc] at he
      cases he
      exact ihd
    | some f =>
      rw [hc] at he
      cases he
      refine concat_induction indexed_empty (fun _ _ => Indexed.union) ?_
      exact List.forall_mem_cons.mpr ⟨ihc f hc, by simpa using ihd⟩

/-- Documents that are added one by one are joined all at once. -/
theorem document_foldl_addDocument {c : Context} {ds : List Document}
    (hc : c.document = some (concat ds)) (es : List Document) :
    (es.foldl Context.addDocument c).document = some (concat (ds ++ es)) := by
  induction es generalizing c ds with
  | nil => rw [List.foldl_nil, hc, List.append_nil]
  | cons e es ih =>
    have hstep : (c.addDocument e).document = some (concat (ds ++ [e])) := by
      rw [document_addDocument, hc, Option.elim_some, concat_concat]
    rw [List.foldl_cons, ih hstep, List.append_assoc, List.singleton_append]

/-- What holds of a document and of all that it is joined with. -/
structure WellBuilt (d : Document) : Prop where
  indexed : d.Indexed
  empty_left : concat [empty, d] = d
  empty_right : concat [d, empty] = d
  assoc : ∀ a b, concat [concat [a, b], d] = concat [a, concat [b, d]]
  /-- Documents that are added to a context one by one are joined there as if all at once. -/
  added : ∀ (c : Context) (ds : List Document),
    ((d :: ds).foldl Context.addDocument c).document =
      some (concat (c.document.toList ++ d :: ds))

/-- However a document is built, it lists the files of its definitions, and joining it to others is
associative. -/
theorem wellBuilt_of_built {d : Document} (h : d.Built) : d.WellBuilt where
  indexed := h.indexed
  empty_left := h.indexed.empty_union
  empty_right := (union_empty _).trans h.indexed.empty_union
  assoc a b := by
    calc concat [concat [a, b], d] = concat [a, b, d] := concat_concat [a, b] [d]
      _ = (empty.union a).union (concat [b, d]) := concat_cons a [b, d]
      _ = (empty.union a).union (concat [concat [b, d]]) := by rw [concat_concat, List.append_nil]
      _ = concat [a, concat [b, d]] := (concat_cons a [concat [b, d]]).symm
  added c ds := by
    rw [List.foldl_cons]
    cases hc : c.document with
    | none =>
      have hfirst : (c.addDocument d).document = some (concat [d]) := by
        rw [document_addDocument, hc, Option.elim_none]
        exact congrArg some h.indexed.empty_union.symm
      exact document_foldl_addDocument hfirst ds
    | some e =>
      have hfirst : (c.addDocument d).document = some (concat [e, d]) := by
        rw [document_addDocument, hc, Option.elim_some]
      exact document_foldl_addDocument hfirst ds

theorem Loaded.built {d : Document} (h : d.Loaded) : d.Built := by
  induction h with
  | append _ _ ih => exact ih.append _ _
  | concat _ ih => exact .concat ih

/-- Files of which one is blank and one comes up again under another spelling. -/
def respeltFiles : List (Path × String) :=
  [(⟨"schema//Query.graphql"⟩, "type Query \x7b viewer: User \x7d scalar Date"),
    (⟨"schema/Blank.graphql"⟩, " \n"),
    (⟨"schema/User.graphql"⟩, "type User \x7b born: Date \x7d"),
    (⟨"schema/./Query.graphql"⟩, "extend type Query \x7b now: Date \x7d")]

theorem respelt_wellBuilt :
    ∃ d, (parseAll respeltFiles).toOption = some d ∧ d.Built ∧ d.definitions.length = 4 ∧
      d.sourceFiles = [⟨"schema//Query.graphql"⟩, ⟨"schema/User.graphql"⟩] ∧ d.WellBuilt := by
  have hread : ((parseAll respeltFiles).toOption.map fun d =>
      (d.definitions.length, d.sourceFiles)) =
        some (4, [⟨"schema//Query.graphql"⟩, ⟨"schema/User.graphql"⟩]) := by
    decide +kernel
  obtain ⟨d, hd, hholds⟩ := Option.map_eq_some_iff.mp hread
  obtain ⟨hlength, hfiles⟩ := Prod.mk.inj hholds
  have hbuilt := (loaded_of_toOption hd).built
  exact ⟨d, hd, hbuilt, hlength, hfiles, wellBuilt_of_built hbuilt⟩

end TypeLoom.Schema.Document
