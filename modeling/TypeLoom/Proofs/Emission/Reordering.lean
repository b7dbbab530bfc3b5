import Mathlib.Data.List.Flatten
import TypeLoom.Proofs.Collection.Reordering
import TypeLoom.Proofs.Emission.Layout
import TypeLoom.Proofs.Schema.Folded

/-!
# What emission reads from a document

What is emitted for a file is made from the types and resolver fields that it declares, which are
put in the order of their positions, and from the plain fields and interfaces of its types, which
may come from other files too. Main statements: in whatever order the files of a document are read,
the types and resolver fields of each file are the same in the same order, and so are the fields and
interfaces of a type that is not extended.
-/

namespace TypeLoom.Schema.Folding

theorem nodup_eraseDups (xs : List String) : xs.eraseDups.Nodup := by
  induction xs using List.reverseRecOn with
  | nil => exact List.nodup_nil
  | append_singleton xs x ih =>
    rw [List.eraseDups_append]
    by_cases hx : x ∈ xs
    · simpa [List.removeAll, hx] using ih
    · simpa [List.removeAll, hx, List.eraseDups_cons, List.nodup_append] using
        ⟨ih, fun y hy heq => hx (heq ▸ hy)⟩

/-- The interfaces that are merged are those of the base, then the other ones, each once. -/
theorem mergeInterfaces_adds (base more : List String) :
    ∃ added, mergeInterfaces base more = base ++ added ∧ added.Nodup ∧
      ∀ i, i ∈ added ↔ i ∈ more ∧ i ∉ base := by
  refine ⟨_, mergeInterfaces_eq base more, nodup_eraseDups _, fun i => ?_⟩
  simp

theorem mergeInterfaces_perm (base : List String) {more more' : List String}
    (h : more.Perm more') : (mergeInterfaces base more).Perm (mergeInterfaces base more') := by
  obtain ⟨added, hmerged, hnodup, hadded⟩ := mergeInterfaces_adds base more
  obtain ⟨added', hmerged', hnodup', hadded'⟩ := mergeInterfaces_adds base more'
  rw [hmerged, hmerged']
  refine List.Perm.append_left _ ((List.perm_ext_iff_of_nodup hnodup hnodup').mpr fun i => ?_)
  rw [hadded, hadded', h.mem_iff]

end TypeLoom.Schema.Folding

namespace TypeLoom

/-- Positions that are in order both ways are one. -/
theorem Position.eq_of_le {p q : Position} (h : p.Le q) (h' : q.Le p) : p = q := by
  obtain ⟨pl, pc⟩ := p
  obtain ⟨ql, qc⟩ := q
  unfold Position.Le at h h'
  dsimp only at h h'
  rw [Position.mk.injEq]
  omega

end TypeLoom

namespace TypeLoom.Collected

open Schema

theorem file_of_mem_bareFields {x : SourcedDefinition} {f : DeclaredField} (hf : f ∈ bareFields x) :
    f.file = x.file := by
  simp only [bareFields, List.mem_flatMap, List.mem_map] at hf
  obtain ⟨t, -, s, -, rfl⟩ := hf
  rfl

/-- The resolver fields of a definition stand where fields of it do. -/
theorem resolverPositions_sublist (x : SourcedDefinition) :
    (((bareFields x).filterMap (·.resolver?)).map (·.field.position)).Sublist
      (Reading.fieldPositions x.definition) := by
  -- A field with a resolver stands where it is declared, and the others are left out.
  have hfields : ∀ (t : TypeDeclaration) (fields : List Field),
      ((((fields.map FieldSource.output).map fun s => DeclaredField.mk ⟨0, 0⟩ x.file t s).filterMap
        (·.resolver?)).map (·.field.position)).Sublist (fields.map (·.position)) := by
    intro t fields
    induction fields with
    | nil => exact List.Sublist.refl _
    | cons g fields ih =>
      cases hg : (DeclaredField.mk ⟨0, 0⟩ x.file t (.output g)).resolver? with
      | none =>
        rw [List.map_cons, List.map_cons, List.filterMap_cons_none hg]
        exact ih.cons _
      | some r =>
        rw [List.map_cons, List.map_cons, List.filterMap_cons_some hg, List.map_cons,
          DeclaredField.eq_of_resolver? hg]
        exact ih.cons_cons _
  have hinputs : ∀ (t : TypeDeclaration) (values : List InputValue),
      ((values.map FieldSource.input).map fun s => DeclaredField.mk ⟨0, 0⟩ x.file t s).filterMap
        (·.resolver?) = [] := by
    intro t values
    rw [List.filterMap_eq_nil_iff]
    intro f hf
    obtain ⟨s, hs, rfl⟩ := List.mem_map.mp hf
    obtain ⟨v, -, rfl⟩ := List.mem_map.mp hs
    rfl
  have hbody : ∀ t : TypeDeclaration,
      ((((sources t.body).map fun s => DeclaredField.mk ⟨0, 0⟩ x.file t s).filterMap
        (·.resolver?)).map (·.field.position)).Sublist (Reading.bodyPositions t.body) := by
    intro t
    cases hbody : t.body with
    | object interfaces fields => exact hfields t fields
    | interface interfaces fields => exact hfields t fields
    | input values =>
      rw [sources, hinputs t values]
      exact List.nil_sublist _
    | _ => exact List.nil_sublist _
  unfold bareFields
  cases hx : x.definition with
  | type t => simpa [declaration?, Reading.fieldPositions] using hbody t
  | extension t => simpa [declaration?, Reading.fieldPositions] using hbody t
  | _ => exact List.nil_sublist _

end TypeLoom.Collected

namespace TypeLoom.Schema.Document

open Collected

variable {d d' : Document}

/-- A definition of a type with fields, or an extension of one, that has a given name. -/
def declares (n : String) (x : SourcedDefinition) : Bool :=
  (definedType? x).any (·.declaration.name == n) || (extendedType? x).any (·.declaration.name == n)

theorem bareFields_of_not_declares {n : String} {x : SourcedDefinition}
    (hx : declares n x = false) : (bareFields x).filter (·.parent == n) = [] := by
  rw [List.filter_eq_nil_iff]
  intro f hf hparent
  simp only [bareFields, List.mem_flatMap, List.mem_map, Option.mem_toList] at hf
  obtain ⟨t, ht, s, hs, rfl⟩ := hf
  have hname : t.name = n := beq_iff_eq.mp hparent
  have hkind : t.body.fieldedKind?.isSome = true := by
    cases hbody : t.body <;> simp [hbody, sources, TypeBody.fieldedKind?] at hs ⊢
  cases hdefinition : x.definition with
  | type u =>
    rw [hdefinition] at ht
    cases ht
    simp [declares, definedType?, hdefinition, hkind, hname] at hx
  | extension u =>
    rw [hdefinition] at ht
    cases ht
    simp [declares, extendedType?, hdefinition, hkind, hname] at hx
  | _ =>
    rw [hdefinition] at ht
    cases ht

/-- The plain fields of a type are those of the definitions of its name. -/
theorem plainFields_of (d : Document) (n : String) :
    (d.plainFields.filter (·.parent == n)).map (·.bare) =
      ((d.definitions.filter (declares n)).flatMap fun x =>
        (bareFields x).filter (·.parent == n)).filterMap (·.plain?) := by
  have hbare : (d.plainFields.filter (·.parent == n)).map (·.bare) =
      (d.plainFields.map (·.bare)).filter (·.parent == n) := by
    rw [List.filter_map]
    rfl
  rw [hbare, plainFields_bare, filter_filterMap_eq (q := fun f => f.parent == n) fun f g hg => by
    rw [DeclaredField.eq_of_plain? hg, f.collected_parent],
    filter_flatMap_eq fun x hx => bareFields_of_not_declares hx]

/-- A type that is defined once and not extended has one definition. -/
theorem length_declares (hnodup : (d.definedTypes.map (·.declaration.name)).Nodup) {n : String}
    (hn : ∀ e ∈ d.extendedTypes, e.declaration.name ≠ n) :
    (d.definitions.filter (declares n)).length ≤ 1 := by
  have hdefined : d.definitions.filter (declares n) =
      d.definitions.filter fun x => (definedType? x).any (·.declaration.name == n) := by
    refine List.filter_congr fun x hx => ?_
    have hnone : (extendedType? x).any (·.declaration.name == n) = false := by
      cases he : extendedType? x with
      | none => rfl
      | some e => simpa using hn e (List.mem_filterMap.mpr ⟨x, hx, he⟩)
    rw [declares, hnone, Bool.or_false]
  have hcount := List.nodup_iff_count_le_one.mp hnodup n
  rw [List.count, List.countP_map, definedTypes, List.countP_filterMap] at hcount
  rw [hdefined, ← List.countP_eq_length_filter]
  refine le_of_eq_of_le (List.countP_congr fun x _ => ?_) hcount
  cases definedType? x <;> simp

end TypeLoom.Schema.Document

namespace TypeLoom.Generation

open Schema Declaration Collected

section

variable {α β γ : Type} {key : α → γ} {xs ys : List α}

/-- Lists of one shape are mapped alike where elements of one shape are. -/
theorem map_eq_of_map_eq {f g : α → β} (h : xs.map key = ys.map key)
    (hfg : ∀ x ∈ xs, ∀ y ∈ ys, key x = key y → f x = g y) : xs.map f = ys.map g := by
  induction xs generalizing ys with
  | nil =>
    obtain rfl := List.map_eq_nil_iff.mp h.symm
    rfl
  | cons x xs ih =>
    cases ys with
    | nil => cases h
    | cons y ys =>
      obtain ⟨hhead, htail⟩ := List.cons.inj h
      rw [List.map_cons, List.map_cons, hfg x List.mem_cons_self y List.mem_cons_self hhead]
      refine congrArg (g y :: ·) (ih htail fun a ha b hb => ?_)
      exact hfg a (List.mem_cons_of_mem x ha) b (List.mem_cons_of_mem y hb)

theorem mapM_eq_of_map_eq {f g : α → Mapped β} (h : xs.map key = ys.map key)
    (hfg : ∀ x ∈ xs, ∀ y ∈ ys, key x = key y → f x = g y) : xs.mapM f = ys.mapM g := by
  have hid : ∀ (zs : List α) (k : α → Mapped β), zs.mapM k = (zs.map k).mapM id := by
    intro zs k
    rw [List.mapM_map]
    rfl
  rw [hid xs, hid ys, map_eq_of_map_eq h hfg]

end

/-- The groups of a file are of resolver fields that the document declares. -/
theorem mem_resolversIn {c : Context} {d : Document} (hc : Collects c d) {file : Path}
    {g : String × List ResolverField} (hg : g ∈ resolversIn c file) {r : ResolverField}
    (hr : r ∈ g.2) : r ∈ d.resolverFields := by
  have hvalues := (Grouping.holds_ofList (fun r : ResolverField => groupName file r.field.parent)
    (fieldsIn c file)).values_perm
  have hfield : r ∈ fieldsIn c file := hvalues.mem_iff.mp (List.mem_flatMap.mpr ⟨g, hg, hr⟩)
  exact List.mem_of_mem_filter ((fieldsIn_perm hc file).mem_iff.mp hfield)

/-- A resolver field has the operation of its type. -/
theorem operationOfField_eq (settings : Settings) (loaded : Option Document) {d : Document}
    {r : ResolverField} (hr : r ∈ d.resolverFields) :
    operationOfField ((Context.uncollected settings loaded).collectDocument d) r.field =
      ((Context.uncollected settings loaded).collectDocument d).operationOf r.field.parent := by
  obtain ⟨f, hf, hresolver⟩ := List.mem_filterMap.mp hr
  obtain ⟨m, hm, hoperation⟩ := operation_of_declared settings loaded hf
    (DeclaredField.isOutput_of_resolver? hresolver)
  rw [DeclaredField.eq_of_resolver? hresolver, operationOfField, DeclaredField.collected_id, hm,
    DeclaredField.collected_parent]
  exact hoperation

/-- Two contexts that hold a document and a reordered one, whose types have different names. -/
structure Alike (c c' : Context) (d d' : Document) : Prop where
  reordered : d.Reordered d'
  collects : Collects c d
  collects' : Collects c' d'
  types : (d.definedTypes.map (·.declaration.name)).Nodup
  names : ∀ r ∈ d.resolverFields, ∀ r' ∈ d'.resolverFields, r.bare = r'.bare →
    resolverNameOf c r.field = resolverNameOf c' r'.field

namespace Alike

variable {c c' : Context} {d d' : Document} (h : Alike c c' d d')
include h

theorem types_nodup (kind : FieldedKind) :
    ((d.definedTypes.filter (·.isOf kind)).map (·.declaration.name)).Nodup :=
  h.types.sublist (List.filter_sublist.map _)

theorem lookup_eq (n : String) : c.lookup n = c'.lookup n := by
  have hkind : ∀ kind, ((d.definedTypes.filter (·.isOf kind)).filter (·.declaration.name == n)) =
      (d'.definedTypes.filter (·.isOf kind)).filter (·.declaration.name == n) := fun kind =>
    Sorting.filter_eq_of_perm (h.reordered.definedTypes_perm.filter _) (h.types_nodup kind) n
  have hall : c.declarationsOf n = c'.declarationsOf n := by
    rw [Context.declarationsOf, Context.declarationsOf, h.collects.objects.get_eq,
      h.collects.interfaces.get_eq, h.collects.inputs.get_eq, h.collects'.objects.get_eq,
      h.collects'.interfaces.get_eq, h.collects'.inputs.get_eq, hkind, hkind, hkind]
  rw [Context.lookup, Context.lookup, hall]

theorem mapName_eq (paths : OutputPaths) (l : Location) (n : String) :
    mapName c paths l n = mapName c' paths l n := by
  rw [mapName, mapName, h.lookup_eq]

theorem mapType_eq (paths : OutputPaths) (l : Location) (t : TypeRef) :
    mapType c paths l t = mapType c' paths l t ∧
      mapPresent c paths l t = mapPresent c' paths l t := by
  induction t with
  | named n => simp only [mapType, mapPresent, h.mapName_eq, and_self]
  | list t ih => simp only [mapType, mapPresent, ih.1, and_self]
  | nonNull t ih => simp only [mapType, mapPresent, ih.2, and_self]

/-- The types of a file are the same, in the same order. -/
theorem typesIn_eq (file : Path) : typesIn c file = typesIn c' file := by
  have hfile : ∀ d : Document, d.definedTypes.filter (·.file.same file) =
      (d.definitionsIn file).filterMap definedType? := by
    intro d
    refine filter_filterMap_eq (fun x t ht => ?_) d.definitions
    unfold definedType? at ht
    split at ht
    · split at ht <;> cases ht
      rfl
    · cases ht
  have hsame : d.definedTypes.filter (·.file.same file) =
      d'.definedTypes.filter (·.file.same file) := by
    rw [hfile, hfile, h.reordered.each]
  have hkind : ∀ kind, (d.definedTypes.filter (·.isOf kind)).filter (·.file.same file) =
      (d'.definedTypes.filter (·.isOf kind)).filter (·.file.same file) := by
    intro kind
    rw [List.filter_comm, hsame, List.filter_comm]
  have hnodup' : ∀ kind,
      ((d'.definedTypes.filter (·.isOf kind)).map (·.declaration.name)).Nodup := fun kind =>
    ((h.reordered.definedTypes_perm.filter _).map _).nodup (h.types_nodup kind)
  rw [typesIn, typesIn, h.collects.objects.values_eq (h.types_nodup _),
    h.collects.interfaces.values_eq (h.types_nodup _), h.collects.inputs.values_eq (h.types_nodup _),
    h.collects'.objects.values_eq (hnodup' _), h.collects'.interfaces.values_eq (hnodup' _),
    h.collects'.inputs.values_eq (hnodup' _), List.filter_append, List.filter_append,
    List.filter_append, List.filter_append, hkind, hkind, hkind]

/-- The resolver fields of a file are the same, in the same order, for no two of them stand at one
position. -/
theorem fieldsIn_eq (file : Path) :
    (fieldsIn c file).map (·.bare) = (fieldsIn c' file).map (·.bare) := by
  have hread : ∀ d : Document, (d.resolverFields.filter (·.field.file.same file)).map (·.bare) =
      ((d.definitionsIn file).flatMap bareFields).filterMap (·.resolver?) := by
    intro d
    have hfile : ∀ x, x.file.same file = false →
        (bareFields x).filter (·.file.same file) = [] := by
      intro x hx
      rw [List.filter_eq_nil_iff]
      intro f hf
      rw [file_of_mem_bareFields hf, hx]
      exact Bool.false_ne_true
    have hall : ∀ x ∈ d.definitionsIn file,
        (bareFields x).filter (·.file.same file) = bareFields x := by
      intro x hx
      rw [List.filter_eq_self]
      intro f hf
      rw [file_of_mem_bareFields hf]
      exact (List.mem_filter.mp hx).2
    have hbare : (d.resolverFields.filter (·.field.file.same file)).map (·.bare) =
        (d.resolverFields.map (·.bare)).filter (·.field.file.same file) := by
      rw [List.filter_map]
      rfl
    rw [hbare, Document.resolverFields_bare,
      filter_filterMap_eq (q := fun f => f.file.same file) fun f r hr => by
        rw [DeclaredField.eq_of_resolver? hr, f.collected_file],
      filter_flatMap_eq hfile]
    exact congrArg _ (List.flatMap_congr hall)
  have hperm : ∀ {c : Context} {d : Document}, Collects c d → ((fieldsIn c file).map (·.bare)).Perm
      (((d.definitionsIn file).flatMap bareFields).filterMap (·.resolver?)) := fun hc =>
    hread _ ▸ (fieldsIn_perm hc file).map _
  have hsorted : ∀ c : Context, ((fieldsIn c file).map (·.bare)).Pairwise fun r s =>
      r.field.position.Le s.field.position := fun c =>
    List.pairwise_map.mpr (byPosition_sorted _ _)
  have hpositions : ((((d.definitionsIn file).flatMap bareFields).filterMap (·.resolver?)).map
      (·.field.position)).Nodup := by
    refine List.Nodup.sublist ?_ (h.reordered.positions file)
    rw [List.filterMap_flatMap, List.map_flatMap]
    exact List.Sublist.flatMap_right _ fun x _ => resolverPositions_sublist x
  have hfields := hperm h.collects
  have hfields' := hperm h.collects'
  rw [← h.reordered.each] at hfields'
  refine List.Perm.eq_of_pairwise ?_ (hsorted c) (hsorted c') (hfields.trans hfields'.symm)
  intro r s hr hs hrs hsr
  refine List.inj_on_of_nodup_map hpositions (hfields.mem_iff.mp hr) (hfields'.mem_iff.mp hs) ?_
  exact Position.eq_of_le hrs hsr

/-- The groups of a file are the same, apart from the places of their fields. -/
theorem resolversIn_eq (file : Path) :
    (resolversIn c file).map (fun g => (g.1, g.2.map (·.bare))) =
      (resolversIn c' file).map fun g => (g.1, g.2.map (·.bare)) := by
  have hbare : ∀ c : Context, (resolversIn c file).map (fun g => (g.1, g.2.map (·.bare))) =
      Grouping.ofList (fun r => groupName file r.field.parent)
        ((fieldsIn c file).map (·.bare)) := by
    intro c
    rw [Grouping.ofList_map]
    rfl
  rw [hbare, hbare, h.fieldsIn_eq]

theorem resolverTypes_eq (paths : OutputPaths) {r r' : ResolverField} (hr : r ∈ d.resolverFields)
    (hr' : r' ∈ d'.resolverFields) (hbare : r.bare = r'.bare) :
    resolverTypes c paths r = resolverTypes c' paths r' := by
  have hname := h.names r hr r' hr' hbare
  have harguments : argumentMember c paths = argumentMember c' paths := by
    funext file v
    rw [argumentMember, argumentMember, (h.mapType_eq paths _ _).1]
  obtain ⟨⟨id, file, parent, position, name, description, type, arguments⟩, resolver⟩ := r
  obtain ⟨⟨id', _, _, _, _, _, _, _⟩, _⟩ := r'
  cases hbare
  simp only [resolverTypes, hname, argumentsType, harguments, CollectedField.location,
    h.mapName_eq, (h.mapType_eq paths _ _).1]

theorem groupDeclarations_eq (paths : OutputPaths) {g g' : String × List ResolverField}
    (hg : ∀ r ∈ g.2, r ∈ d.resolverFields) (hg' : ∀ r ∈ g'.2, r ∈ d'.resolverFields)
    (hbare : (g.1, g.2.map (·.bare)) = (g'.1, g'.2.map (·.bare))) :
    groupDeclarations c paths g = groupDeclarations c' paths g' := by
  obtain ⟨group, rs⟩ := g
  obtain ⟨group', rs'⟩ := g'
  obtain ⟨rfl, hrs⟩ := Prod.mk.inj hbare
  have htypes : rs.mapM (resolverTypes c paths) = rs'.mapM (resolverTypes c' paths) :=
    mapM_eq_of_map_eq hrs fun r hr r' hr' heq => h.resolverTypes_eq paths (hg r hr) (hg' r' hr') heq
  have hinterface : groupInterface c group rs = groupInterface c' group rs' := by
    refine congrArg _ (map_eq_of_map_eq hrs fun r hr r' hr' heq => ?_)
    have hresolver : r.resolver = r'.resolver := congrArg (·.resolver) heq
    rw [hresolver, h.names r (hg r hr) r' (hg' r' hr') heq]
  simp only [groupDeclarations, htypes, hinterface]

/-- What is made of the resolver fields of a file is the same. -/
theorem groups_eq (paths : OutputPaths) (file : Path) :
    (resolversIn c file).mapM (groupDeclarations c paths) =
      (resolversIn c' file).mapM (groupDeclarations c' paths) := by
  exact mapM_eq_of_map_eq (h.resolversIn_eq file) fun g hg g' hg' heq =>
    h.groupDeclarations_eq paths (fun _ => mem_resolversIn h.collects hg)
      (fun _ => mem_resolversIn h.collects' hg') heq

theorem memberOf_eq (paths : OutputPaths) : memberOf c paths = memberOf c' paths := by
  funext f
  rw [memberOf, memberOf, (h.mapType_eq paths _ _).1]

/-- A type has the same members, if in another order. -/
theorem members_perm (paths : OutputPaths) (n : String) :
    ((c.plain.get n).map (memberOf c paths)).Perm ((c'.plain.get n).map (memberOf c' paths)) := by
  rw [h.collects.plain.get_eq, h.collects'.plain.get_eq, h.memberOf_eq]
  exact Document.perm_of_bare h.reordered.plainFields_perm (fun _ => rfl) fun _ => rfl

theorem members_eq (paths : OutputPaths) {n : String}
    (hn : ∀ e ∈ d.extendedTypes, e.declaration.name ≠ n) :
    (c.plain.get n).map (memberOf c paths) = (c'.plain.get n).map (memberOf c' paths) := by
  have hdefinition : d.definitions.filter (Document.declares n) =
      d'.definitions.filter (Document.declares n) :=
    Sorting.eq_of_perm_of_length_le_one (h.reordered.definitions.filter _)
      (Document.length_declares h.types hn)
  have hfields := Document.plainFields_of d n
  rw [hdefinition, ← Document.plainFields_of d' n] at hfields
  rw [h.collects.plain.get_eq, h.collects'.plain.get_eq, h.memberOf_eq]
  have hbare : ∀ fs : List CollectedField,
      (fs.map (·.bare)).map (memberOf c' paths) = fs.map (memberOf c' paths) := by
    intro fs
    rw [List.map_map]
    rfl
  rw [← hbare, hfields, hbare]

/-- A type has the same interfaces, if in another order. -/
theorem interfaces_perm (t : TypeDeclaration) :
    (inheritedInterfaces c t).Perm (inheritedInterfaces c' t) := by
  have hextensions : (c.extensions.get t.name).Perm (c'.extensions.get t.name) := by
    rw [h.collects.extensions.get_eq, h.collects'.extensions.get_eq]
    exact h.reordered.extendedTypes_perm.filter _
  unfold inheritedInterfaces
  split
  · exact List.Perm.refl _
  · rw [Folding.foldl_inheritFrom, Folding.foldl_inheritFrom]
    exact Folding.mergeInterfaces_perm _ (hextensions.flatMap_right _)

theorem interfaces_eq {t : TypeDeclaration}
    (ht : ∀ e ∈ d.extendedTypes, e.declaration.name ≠ t.name) :
    inheritedInterfaces c t = inheritedInterfaces c' t := by
  have hnone : c.extensions.get t.name = [] := by
    rw [h.collects.extensions.get_eq, List.filter_eq_nil_iff]
    intro e he
    simpa using ht e he
  have hnone' : c'.extensions.get t.name = [] := by
    rw [h.collects'.extensions.get_eq, List.filter_eq_nil_iff]
    intro e he
    simpa using ht e (h.reordered.extendedTypes_perm.mem_iff.mpr he)
  unfold inheritedInterfaces
  rw [hnone, hnone']

end Alike

end TypeLoom.Generation
