import Mathlib.Data.List.Nodup
import TypeLoom.Proofs.Collection.Duplicates

/-!
# Documents in which nothing is wrong

A context whose validation finds no problem tells that its document repeats nothing: no two types
of it have one name, none of its fields is malformed, and all its extensions extend a type that is
defined as what they extend it as.
-/

namespace TypeLoom.Collected

open Schema

theorem declaredBy_map {β : Type} (g : Path → TypeDeclaration → FieldSource → β) (i : Nat)
    (file : Path) (t : TypeDeclaration) :
    (declaredBy i file t).map (fun f => g f.file f.declaration f.source) =
      (sources t.body).map (g file t) := by
  have hsources : (sources t.body).zipIdx.map Prod.fst = sources t.body := List.zipIdx_map_fst 0 _
  rw [declaredBy, List.map_map]
  conv_rhs => rw [← hsources, List.map_map]
  rfl

theorem declaredIn_map {β : Type} (g : Path → TypeDeclaration → FieldSource → β) (i : Nat)
    (x : SourcedDefinition) :
    (declaredIn i x).map (fun f => g f.file f.declaration f.source) =
      ((declaration? x.definition).toList).flatMap fun t => (sources t.body).map (g x.file t) := by
  simp only [declaredIn, List.map_flatMap, declaredBy_map]

end TypeLoom.Collected

namespace TypeLoom.Schema.Document

open Collected

variable {d : Document}

/-- A property of fields that does not depend on where they stand in the document is read off the
definitions one after the other. -/
theorem declaredFields_map {β : Type} (g : Path → TypeDeclaration → FieldSource → β)
    (d : Document) :
    d.declaredFields.map (fun f => g f.file f.declaration f.source) =
      d.definitions.flatMap fun x => ((declaration? x.definition).toList).flatMap fun t =>
        (sources t.body).map (g x.file t) := by
  have hall : ∀ (xs : List SourcedDefinition) (n : Nat),
      ((xs.zipIdx n).flatMap fun x => declaredIn x.2 x.1).map
          (fun f => g f.file f.declaration f.source) =
        xs.flatMap fun x => ((declaration? x.definition).toList).flatMap fun t =>
          (sources t.body).map (g x.file t) := by
    intro xs
    induction xs with
    | nil => simp
    | cons x xs ih =>
      intro n
      rw [List.zipIdx_cons, List.flatMap_cons, List.map_append, ih (n + 1), List.flatMap_cons,
        declaredIn_map]
  exact hall d.definitions 0

/-- Types that are not repeated have different names. -/
theorem types_nodup (h : ∀ n, ¬d.Repeats (.type n)) :
    (d.definedTypes.map (·.declaration.name)).Nodup := by
  rw [List.nodup_iff_count_le_one]
  intro n
  have honce : ¬1 < ((d.definedTypes.filter (·.declaration.name == n)).map
    (·.location)).length := h n
  rw [List.length_map, ← List.countP_eq_length_filter] at honce
  rw [List.count, List.countP_map]
  exact Nat.not_lt.mp honce

/-- The one type of a name. -/
theorem types_of_name (hd : (d.definedTypes.map (·.declaration.name)).Nodup) {t : SourcedType}
    (ht : t ∈ d.definedTypes) :
    d.definedTypes.filter (·.declaration.name == t.declaration.name) = [t] := by
  have hle : (d.definedTypes.filter
      (·.declaration.name == t.declaration.name)).length ≤ 1 := by
    have hcount := List.nodup_iff_count_le_one.mp hd t.declaration.name
    rwa [List.count, List.countP_map, List.countP_eq_length_filter] at hcount
  have hmem : t ∈ d.definedTypes.filter (·.declaration.name == t.declaration.name) :=
    List.mem_filter.mpr ⟨ht, beq_self_eq_true _⟩
  obtain ⟨u, hu⟩ := List.length_eq_one_iff.mp (Nat.le_antisymm hle (List.length_pos_of_mem hmem))
  rw [hu] at hmem ⊢
  rw [List.mem_singleton.mp hmem]

end TypeLoom.Schema.Document

namespace TypeLoom.Collected

open Schema

variable {c : Context} {d : Document}

/-- Validation that finds nothing finds nothing repeated. -/
theorem Collects.not_repeats (hc : Collects c d) (h : c.validate.problems = []) (s : Subject) :
    ¬d.Repeats s := by
  intro hs
  obtain ⟨ls, habout, -⟩ := hc.reportsRepeated.each s hs
  rw [(List.append_eq_nil_iff.mp h).2] at habout
  cases habout

/-- Of a document without problems no field is malformed. -/
theorem wellFormed_of_problems {settings : Generation.Settings} {loaded : Option Document}
    (h : ((Context.uncollected settings loaded).collectDocument d).problems = []) :
    ∀ f ∈ d.declaredFields, f.problem? = none := by
  have hrefusals := ((Context.uncollected settings loaded).walk_collectDocument d).refusals
  rw [h] at hrefusals
  intro f hf
  exact List.filterMap_eq_nil_iff.mp hrefusals.symm f hf

/-- A type is defined as a kind if the document has such a definition. -/
theorem Collects.isDefinedAs_iff (hc : Collects c d) {n : String} {kind : Option FieldedKind} :
    c.isDefinedAs n kind = true ↔
      ∃ t ∈ d.definedTypes, t.declaration.name = n ∧ t.declaration.body.fieldedKind? = kind := by
  have hkey : ∀ {g : Grouping String SourcedType} {xs : List SourcedType},
      g.Holds (·.declaration.name) xs → (g.hasKey n = true ↔ ∃ t ∈ xs, t.declaration.name = n) := by
    intro g xs hg
    rw [← hg.mem_keys, Grouping.hasKey, List.any_eq_true, Grouping.keys, List.mem_map]
    simp
  have hof : ∀ k, (∃ t ∈ d.definedTypes.filter (·.isOf k), t.declaration.name = n) ↔
      ∃ t ∈ d.definedTypes, t.declaration.name = n ∧
        t.declaration.body.fieldedKind? = some k := by
    intro k
    simp only [List.mem_filter, SourcedType.isOf, beq_iff_eq, and_assoc,
      and_comm (a := _ = some k)]
  cases kind with
  | some kind =>
    cases kind with
    | object => exact (hkey hc.objects).trans (hof _)
    | interface => exact (hkey hc.interfaces).trans (hof _)
    | input => exact (hkey hc.inputs).trans (hof _)
  | none =>
    refine iff_of_false Bool.false_ne_true ?_
    rintro ⟨t, ht, -, hnone⟩
    have hsome := kind_of_mem_definedTypes ht
    rw [hnone] at hsome
    cases hsome

/-- Extensions with which nothing is wrong extend a type of their kind. -/
theorem Collects.extends_of_checked (hc : Collects c d) (h : c.undefinedExtensions = [])
    {e : SourcedType} (he : e ∈ d.extendedTypes) :
    ∃ t ∈ d.definedTypes, t.declaration.name = e.declaration.name ∧
      t.declaration.body.fieldedKind? = e.declaration.body.fieldedKind? := by
  have hnone := List.filterMap_eq_nil_iff.mp h e (hc.extensions.mem_values.mpr he)
  rw [← hc.isDefinedAs_iff]
  by_contra hundefined
  rw [if_neg hundefined] at hnone
  cases hnone

/-- Where a type is defined once, all its extensions are of its kind. -/
theorem Collects.kind_of_extension (hc : Collects c d)
    (hnodup : (d.definedTypes.map (·.declaration.name)).Nodup) (h : c.undefinedExtensions = [])
    {e t : SourcedType} (he : e ∈ d.extendedTypes) (ht : t ∈ d.definedTypes)
    (hname : e.declaration.name = t.declaration.name) :
    e.declaration.body.fieldedKind? = t.declaration.body.fieldedKind? := by
  obtain ⟨u, hu, huname, hukind⟩ := hc.extends_of_checked h he
  have hmem : u ∈ d.definedTypes.filter (·.declaration.name == t.declaration.name) :=
    List.mem_filter.mpr ⟨hu, beq_iff_eq.mpr (huname.trans hname)⟩
  rw [Document.types_of_name hnodup ht, List.mem_singleton] at hmem
  rw [← hukind, hmem]

end TypeLoom.Collected
