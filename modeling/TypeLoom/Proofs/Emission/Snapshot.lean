import Mathlib.Data.List.Flatten
import Mathlib.Data.List.Perm.Lattice
import TypeLoom.Generation.Emission
import TypeLoom.Proofs.Collection.Valid
import TypeLoom.Proofs.Schema.Folded

/-!
# The snapshot and the declarations show the same types

Extensions are merged twice: the snapshot folds them into the definitions of a document, and the
declarations are made from what was collected for a type from all of them. Main statement: for a
document without problems both give one and the same type, with the same fields and with the same
interfaces in the same order, and no extension of a type with fields is left over.
-/

namespace TypeLoom.Collected

open Schema

def FieldSource.name : FieldSource → String
  | .output f => f.name
  | .input v => v.name

/-- The names of a type's fields, in order. -/
def fieldNames (t : TypeDeclaration) : List String := (sources t.body).map (·.name)

namespace DeclaredField

@[simp]
theorem collected_name (f : DeclaredField) : f.collected.name = f.source.name := by
  cases f with | mk id file declaration source => cases source <;> rfl

end DeclaredField

/-- Fields of which none is malformed are plain or resolver fields. -/
theorem names_perm {fs : List DeclaredField} (hfs : ∀ f ∈ fs, f.problem? = none) :
    ((fs.filterMap (·.plain?)).map (·.name) ++ (fs.filterMap (·.resolver?)).map (·.field.name)).Perm
      (fs.map (·.source.name)) := by
  induction fs with
  | nil => simp
  | cons f fs ih =>
    obtain ⟨hf, hrest⟩ := List.forall_mem_cons.mp hfs
    have hstep := (ih hrest).cons f.source.name
    cases hfate : f.fate with
    | plain =>
      simpa [DeclaredField.plain?, DeclaredField.resolver?, hfate] using hstep
    | resolver name =>
      simpa [DeclaredField.plain?, DeclaredField.resolver?, hfate] using
        List.perm_middle.trans hstep
    | malformed p =>
      rw [DeclaredField.problem?, hfate] at hf
      cases hf

variable {c : Context} {d : Document}

/-- The names of all fields that are collected for a type are those of its definitions and
extensions. -/
theorem Collects.fieldNames_perm (hc : Collects c d)
    (hd : ∀ f ∈ d.declaredFields, f.problem? = none) (n : String) :
    ((c.plain.get n).map (·.name) ++ (c.resolvers.get n).map (·.field.name)).Perm
      ((d.definedTypes.filter (·.declaration.name == n)).flatMap (fieldNames ·.declaration) ++
        (d.extendedTypes.filter (·.declaration.name == n)).flatMap (fieldNames ·.declaration)) := by
  have hplain : c.plain.get n =
      (d.declaredFields.filter (·.parent == n)).filterMap (·.plain?) := by
    rw [hc.plain.get_eq]
    exact filter_filterMap_eq (fun f g h => by rw [DeclaredField.eq_of_plain? h, f.collected_parent])
      d.declaredFields
  have hresolvers : c.resolvers.get n =
      (d.declaredFields.filter (·.parent == n)).filterMap (·.resolver?) := by
    rw [hc.resolvers.get_eq]
    exact filter_filterMap_eq
      (fun f r h => by rw [DeclaredField.eq_of_resolver? h, f.collected_parent]) d.declaredFields
  -- What one definition of that name adds, whether it defines the type or extends it.
  have hdefinitions : (d.declaredFields.filter (·.parent == n)).map (·.source.name) =
      d.definitions.flatMap fun x =>
        ((definedType? x).toList.filter (·.declaration.name == n)).flatMap
            (fieldNames ·.declaration) ++
          ((extendedType? x).toList.filter (·.declaration.name == n)).flatMap
            (fieldNames ·.declaration) := by
    have hread := Document.declaredFields_map (fun _ t s => (t.name, s.name)) d
    have hnames : (d.declaredFields.filter (·.parent == n)).map (·.source.name) =
        ((d.declaredFields.map fun f => (f.declaration.name, f.source.name)).filter
          (·.1 == n)).map (·.2) := by
      rw [List.filter_map, List.map_map]
      rfl
    rw [hnames, hread, List.filter_flatMap, List.map_flatMap]
    refine List.flatMap_congr fun x _ => ?_
    cases hx : x.definition with
    | schema b => simp [declaration?, definedType?, extendedType?, hx]
    | directive e => simp [declaration?, definedType?, extendedType?, hx]
    | type t =>
      cases hkind : t.body.fieldedKind? <;> by_cases hname : t.name = n <;>
        simp [declaration?, definedType?, extendedType?, hx, hkind, hname, fieldNames,
          List.filter_map, Function.comp_def]
      cases hbody : t.body <;> simp_all [sources, TypeBody.fieldedKind?]
    | extension t =>
      cases hkind : t.body.fieldedKind? <;> by_cases hname : t.name = n <;>
        simp [declaration?, definedType?, extendedType?, hx, hkind, hname, fieldNames,
          List.filter_map, Function.comp_def]
      cases hbody : t.body <;> simp_all [sources, TypeBody.fieldedKind?]
  have hparts : ∀ (g : SourcedDefinition → Option SourcedType),
      (d.definitions.flatMap fun x => ((g x).toList.filter (·.declaration.name == n)).flatMap
        (fieldNames ·.declaration)) =
        ((d.definitions.filterMap g).filter (·.declaration.name == n)).flatMap
          (fieldNames ·.declaration) := by
    intro g
    rw [List.filterMap_eq_flatMap_toList, List.filter_flatMap, List.flatMap_assoc]
  rw [hplain, hresolvers, Document.definedTypes, Document.extendedTypes, ← hparts, ← hparts]
  refine (names_perm fun f hf => hd f (List.mem_of_mem_filter hf)).trans ?_
  rw [hdefinitions]
  exact (List.flatMap_append_perm _ _ _).symm

end TypeLoom.Collected

namespace TypeLoom.Schema.Folding

open Collected Generation

/-! ### Types that grow -/

theorem fieldNames_stripType (t : TypeDeclaration) : fieldNames (stripType t) = fieldNames t := by
  unfold stripType fieldNames
  split <;> rename_i h <;> simp [h, sources, stripField, stripInput, FieldSource.name,
    Function.comp_def]

theorem implemented_of_input {t : TypeDeclaration} (h : t.body.fieldedKind? = some .input) :
    implemented t = [] := by
  cases hbody : t.body with
  | input fields => simp [implemented, hbody]
  | _ => simp [hbody, TypeBody.fieldedKind?] at h

/-- A type shows the fields and interfaces of all its extensions, in their order. -/
theorem foldl_grow_shows (es : List TypeDeclaration) {t : TypeDeclaration}
    (ht : t.body.fieldedKind?.isSome = true)
    (hes : ∀ e ∈ es, e.body.fieldedKind? = t.body.fieldedKind?) :
    fieldNames (es.foldl grow t) = fieldNames t ++ es.flatMap fieldNames ∧
      implemented (es.foldl grow t) = mergeInterfaces (implemented t) (es.flatMap implemented) := by
  obtain ⟨-, hfields, hinterfaces⟩ := foldl_grow_adds es ht hes
  refine ⟨?_, hinterfaces⟩
  rw [fieldNames, hfields, List.map_append, List.map_flatMap]
  rfl

/-! ### Documents that are folded -/

/-- Where no two bases have one name, each of them grows. -/
theorem base?_enlarged {es : List TypeDeclaration} {ds : List Definition}
    (h : ((ds.filterMap base?).map (·.name)).Nodup) :
    (enlarged es ds).filterMap base? = (ds.filterMap base?).map (grown es) := by
  induction ds generalizing es with
  | nil => rfl
  | cons d ds ih =>
    cases hd : base? d with
    | none =>
      rw [List.filterMap_cons_none hd] at h ⊢
      simp only [enlarged, hd, List.filterMap_cons_none hd, ih h]
    | some t =>
      rw [List.filterMap_cons_some hd, List.map_cons, List.nodup_cons] at h
      rw [List.filterMap_cons_some hd, List.map_cons]
      simp only [enlarged, hd, List.filterMap_cons_some (base?_grown hd es), ih h.2]
      congr 1
      refine List.map_congr_left fun u hu => ?_
      -- What the other type took for itself is not of this name.
      have hne : t.name ≠ u.name := fun heq => h.1 (heq ▸ List.mem_map_of_mem hu)
      exact grown_filter_of_ne hne es

theorem takes_of_mem {e t : TypeDeclaration} {ds : List Definition}
    (h : ((ds.filterMap base?).map (·.name)).Nodup) (ht : t ∈ ds.filterMap base?)
    (hname : t.name = e.name) (hkind : t.body.fieldedKind? = e.body.fieldedKind?) :
    takes e ds = true := by
  induction ds with
  | nil => cases ht
  | cons d ds ih =>
    cases hd : base? d with
    | none =>
      rw [List.filterMap_cons_none hd] at h ht
      simpa only [takes, hd] using ih h ht
    | some u =>
      rw [List.filterMap_cons_some hd] at h ht
      rw [List.map_cons, List.nodup_cons] at h
      simp only [takes, hd]
      rcases List.mem_cons.mp ht with rfl | ht
      · simp [hname, hkind]
      · have hne : u.name ≠ e.name := fun heq =>
          h.1 (heq ▸ hname ▸ List.mem_map_of_mem ht)
        rw [if_neg (by simpa using hne)]
        exact ih h.2 ht

variable (d : Document)

/-- The bases of a document are the types with fields that it defines. -/
theorem base?_bases :
    (bases (d.definitions.map (·.definition))).filterMap base? =
      d.definedTypes.map fun t => stripType t.declaration := by
  unfold bases Document.definedTypes
  induction d.definitions with
  | nil => rfl
  | cons x xs ih =>
    rw [List.map_cons]
    cases hx : x.definition with
    | schema b => simpa [definedType?, hx, base?, List.filterMap_cons] using ih
    | directive e =>
      by_cases hname : isGeneratorDirective e.name <;>
        simpa [definedType?, hx, hname, base?, List.filterMap_cons] using ih
    | extension t => simpa [definedType?, hx] using ih
    | type t =>
      cases hkind : t.body.fieldedKind? <;>
        simpa [definedType?, hx, hkind, base?, stripType_kind] using ih

/-- The extensions of a document that may be folded. -/
theorem filter_extensions (n : String) (k : FieldedKind) :
    (extensions (d.definitions.map (·.definition))).filter
        (fun e => e.body.fieldedKind? == some k && e.name == n) =
      (d.extendedTypes.filter fun e => e.declaration.body.fieldedKind? == some k &&
        e.declaration.name == n).map fun e => stripType e.declaration := by
  unfold extensions Document.extendedTypes
  induction d.definitions with
  | nil => rfl
  | cons x xs ih =>
    rw [List.map_cons]
    cases hx : x.definition with
    | schema b => simpa [extendedType?, hx] using ih
    | directive e => simpa [extendedType?, hx] using ih
    | type t => simpa [extendedType?, hx] using ih
    | extension t =>
      by_cases hname : t.name = n <;> cases hkind : t.body.fieldedKind? with
      | none => simpa [extendedType?, hx, hname, hkind, stripType_kind, stripType_name] using ih
      | some j =>
        by_cases hj : j = k <;>
          simpa [extendedType?, hx, hname, hkind, hj, stripType_kind, stripType_name] using ih

theorem mem_extensions {e : TypeDeclaration}
    (he : e ∈ extensions (d.definitions.map (·.definition)))
    (hkind : e.body.fieldedKind?.isSome = true) :
    ∃ x ∈ d.extendedTypes, e = stripType x.declaration := by
  simp only [extensions, List.mem_filterMap, List.mem_map] at he
  obtain ⟨_, ⟨x, hx, rfl⟩, hread⟩ := he
  split at hread
  case h_2 => cases hread
  case h_1 t hdefinition =>
    cases hread
    rw [stripType_kind] at hkind
    refine ⟨⟨x.file, t⟩, List.mem_filterMap.mpr ⟨x, hx, ?_⟩, rfl⟩
    rw [extendedType?, hdefinition]
    exact if_pos hkind

end TypeLoom.Schema.Folding

namespace TypeLoom.Generation

open Collected Schema Schema.Folding

/-- The type `t` of a snapshot shows what a context has collected for the defined type `s`. -/
structure Shows (c : Context) (s : SourcedType) (t : TypeDeclaration) : Prop where
  name : t.name = s.declaration.name
  kind : t.body.fieldedKind? = s.declaration.body.fieldedKind?
  fields : (fieldNames t).Perm
    ((c.plain.get t.name).map (·.name) ++ (c.resolvers.get t.name).map (·.field.name))
  interfaces : interfaceNames t.body = inheritedInterfaces c s.declaration

variable {c : Context} {d : Document}

/-- A defined type and all extensions of its name are shown together. -/
theorem shows_grown (hc : Collects c d) (hfields : ∀ f ∈ d.declaredFields, f.problem? = none)
    (hnodup : (d.definedTypes.map (·.declaration.name)).Nodup)
    (hrule : c.undefinedExtensions = []) {s : SourcedType} (hs : s ∈ d.definedTypes) :
    Shows c s (grown (extensions (d.definitions.map (·.definition))) (stripType s.declaration)) := by
  have hsome := kind_of_mem_definedTypes hs
  obtain ⟨k, hk⟩ := Option.isSome_iff_exists.mp hsome
  have hkinds : ∀ e ∈ d.extendedTypes, e.declaration.name = s.declaration.name →
      e.declaration.body.fieldedKind? = some k := fun e he hname =>
    (hc.kind_of_extension hnodup hrule he hs hname).trans hk
  -- The extensions that make the type grow are all those of its name.
  have hgrown : grown (extensions (d.definitions.map (·.definition))) (stripType s.declaration) =
      ((d.extendedTypes.filter (·.declaration.name == s.declaration.name)).map
        fun e => stripType e.declaration).foldl grow (stripType s.declaration) := by
    rw [grown, foldl_grow_filter, List.filter_filter, stripType_name, stripType_kind, hk,
      filter_extensions]
    congr 2
    refine List.filter_congr fun e he => ?_
    by_cases hname : e.declaration.name = s.declaration.name
    · simp [hkinds e he hname]
    · simp [hname]
  obtain ⟨hadded, hinherited⟩ := foldl_grow_shows (t := stripType s.declaration)
    ((d.extendedTypes.filter (·.declaration.name == s.declaration.name)).map
      fun e => stripType e.declaration) (by rwa [stripType_kind]) fun e he => by
    obtain ⟨x, hx, rfl⟩ := List.mem_map.mp he
    obtain ⟨hx, hname⟩ := List.mem_filter.mp hx
    rw [stripType_kind, stripType_kind, hk, hkinds x hx (beq_iff_eq.mp hname)]
  rw [← hgrown, fieldNames_stripType, List.flatMap_map] at hadded
  rw [← hgrown, implemented_stripType, List.flatMap_map] at hinherited
  have hname : (grown (extensions (d.definitions.map (·.definition)))
      (stripType s.declaration)).name = s.declaration.name := by
    rw [grown_name, stripType_name]
  have hkind : (grown (extensions (d.definitions.map (·.definition)))
      (stripType s.declaration)).body.fieldedKind? = s.declaration.body.fieldedKind? := by
    rw [grown_kind, stripType_kind]
  constructor
  case name => exact hname
  case kind => exact hkind
  case fields =>
    have hcollected := hc.fieldNames_perm hfields s.declaration.name
    rw [Document.types_of_name hnodup hs, List.flatMap_singleton] at hcollected
    rw [hname, hadded]
    simp only [fieldNames_stripType]
    exact hcollected.symm
  case interfaces =>
    rw [inheritedInterfaces]
    split
    case h_1 fields hbody =>
      exact implemented_of_input (by rw [hkind, hbody]; rfl)
    case h_2 =>
      rw [← implemented_eq, hinherited, foldl_inheritFrom, hc.extensions.get_eq]
      simp only [implemented_stripType]

/-- A document without problems: the snapshot leaves over no extension of a type with fields, and
its types with fields are those that are declared, in order, with the fields and interfaces that
were collected for them. -/
theorem snapshot_agrees (settings : Settings) (loaded : Option Document) (d : Document)
    (hvalid : ((Context.uncollected settings loaded).collectDocument d).validate.problems = [])
    (hrule : extensionRule.check ((Context.uncollected settings loaded).collectDocument d) = []) :
    (∀ e, .extension e ∈ fold (d.definitions.map (·.definition)) → e.body.fieldedKind? = none) ∧
      List.Forall₂ (Shows ((Context.uncollected settings loaded).collectDocument d)) d.definedTypes
        ((fold (d.definitions.map (·.definition))).filterMap base?) := by
  have hfields := wellFormed_of_problems (List.append_eq_nil_iff.mp hvalid).1
  have hc := collects_collectDocument settings loaded d
  revert hvalid hrule hc
  generalize (Context.uncollected settings loaded).collectDocument d = c
  intro hvalid hrule hc
  have hnodup := Document.types_nodup fun n => hc.not_repeats hvalid (.type n)
  have hbases : (((bases (d.definitions.map (·.definition))).filterMap base?).map
      (·.name)).Nodup := by
    rw [base?_bases, List.map_map]
    simpa only [Function.comp_def, stripType_name] using hnodup
  rw [fold_eq]
  constructor
  · intro e he
    rcases List.mem_append.mp he with he | he
    · exact absurd he (extension_notMem_enlarged (extension_notMem_bases _ e))
    · obtain ⟨x, hx, hxe⟩ := List.mem_map.mp he
      cases hxe
      obtain ⟨hx, hleft⟩ := List.mem_filter.mp hx
      by_contra hkind
      obtain ⟨y, hy, rfl⟩ := mem_extensions d hx (Option.ne_none_iff_isSome.mp hkind)
      obtain ⟨t, ht, hname, hsame⟩ := hc.extends_of_checked hrule hy
      -- The type that the rule found takes the extension.
      have htaken : takes (stripType y.declaration) (bases (d.definitions.map (·.definition))) =
          true := by
        refine takes_of_mem (t := stripType t.declaration) hbases ?_ ?_ ?_
        · rw [base?_bases]
          exact List.mem_map_of_mem ht
        · rw [stripType_name, stripType_name, hname]
        · rw [stripType_kind, stripType_kind, hsame]
      rw [htaken] at hleft
      cases hleft
  · have hleft : ∀ es : List TypeDeclaration, (es.map Definition.extension).filterMap base? = [] := by
      intro es
      simp [List.filterMap_map, List.filterMap_eq_nil_iff, base?]
    rw [List.filterMap_append, hleft, List.append_nil, base?_enlarged hbases, base?_bases,
      List.map_map, List.forall₂_map_right_iff, List.forall₂_same]
    exact fun s hs => shows_grown hc hfields hnodup hrule hs

/-- Two schema files, the first of which extends the type that the second defines. -/
def earlyExtension : List (Path × String) :=
  [(⟨"schema/Account.graphql"⟩, "extend type User implements Node \x7b id: ID! \x7d " ++
      "interface Node \x7b id: ID! \x7d"),
    (⟨"schema/User.graphql"⟩,
      "type User implements Named \x7b name: String!  posts: [String] @resolve \x7d " ++
      "interface Named \x7b name: String! \x7d")]

theorem snapshot_agrees_early_extension :
    ∃ d, (Document.parseAll earlyExtension).toOption = some d ∧
      (((Context.uncollected .empty (some d)).collectDocument d).validate.problems = [] ∧
        extensionRule.check ((Context.uncollected .empty (some d)).collectDocument d) = []) ∧
      (∀ e, .extension e ∈ fold (d.definitions.map (·.definition)) → e.body.fieldedKind? = none) ∧
        List.Forall₂ (Shows ((Context.uncollected .empty (some d)).collectDocument d))
          d.definedTypes ((fold (d.definitions.map (·.definition))).filterMap base?) := by
  have hread : ((Document.parseAll earlyExtension).toOption.map fun d =>
      (((Context.uncollected .empty (some d)).collectDocument d).validate.problems.isEmpty,
        (extensionRule.check ((Context.uncollected .empty (some d)).collectDocument d)).isEmpty)) =
      some (true, true) := by
    decide +kernel
  obtain ⟨d, hd, hempty⟩ := Option.map_eq_some_iff.mp hread
  obtain ⟨hvalid, hrule⟩ := Prod.mk.inj hempty
  rw [List.isEmpty_iff] at hvalid hrule
  exact ⟨d, hd, ⟨hvalid, hrule⟩, snapshot_agrees .empty (some d) d hvalid hrule⟩

end TypeLoom.Generation
