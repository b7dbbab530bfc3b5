import Mathlib.Data.List.Forall2
import TypeLoom.Generation.Emission
import TypeLoom.Proofs.Collection.Declared
import TypeLoom.Proofs.Schema.Folding

/-!
# The definitions that a snapshot shows

Nothing is asked of the definitions here: names may be defined twice, and extensions may have no
base or one of another kind. Main statement: a snapshot shows the definitions in their places, each
with what it gains and nothing else, then the extensions that were not folded; whatever a type or
an extension says is said there, and folding once more changes nothing.
-/

namespace TypeLoom.Collected

open Schema

/-- A field without the generator's directives. -/
def FieldSource.stripped : FieldSource → FieldSource
  | .output f => .output (Folding.stripField f)
  | .input v => .input (Folding.stripInput v)

end TypeLoom.Collected

namespace TypeLoom.Schema.Folding

open Collected Generation

/-! ### What is shown -/

/-- The names of the two directives that a snapshot does not show. -/
def isHidden (name : String) : Bool := name == "resolve" || name == "resolvers"

def visible (ds : List Directive) : List Directive := ds.filter (!isHidden ·.name)

/-- What a snapshot shows of a field: all of it but the two directives. -/
inductive ShownAs : FieldSource → FieldSource → Prop
  | output (f : Field) : ShownAs (.output f)
      (.output ⟨f.position, f.description, f.name, f.arguments, f.type, visible f.directives⟩)
  | input (v : InputValue) : ShownAs (.input v)
      (.input ⟨v.position, v.description, v.name, v.type, v.default, visible v.directives⟩)

/-- The interfaces that the body of a type lists. -/
def interfaceNames : TypeBody → List String
  | .object names _ => names
  | .interface names _ => names
  | _ => []

/-- Whether a definition has a place of its own in a snapshot. -/
def isKept : Definition → Bool
  | .directive d => !isHidden d.name
  | .extension _ => false
  | _ => true

def kept (ds : List Definition) : List Definition := ds.filter isKept

def extension? : Definition → Option TypeDeclaration
  | .extension e => some e
  | _ => none

/-- The first object, interface or input type of a name. -/
def firstBase? (ds : List Definition) (name : String) : Option TypeDeclaration :=
  ds.findSome? fun d => (base? d).filter (·.name == name)

/-- Whether the first type with fields of an extension's name is of its kind. -/
def isFolded (ds : List Definition) (e : TypeDeclaration) : Bool :=
  (firstBase? ds e.name).any fun t => t.body.fieldedKind? == e.body.fieldedKind?

/-- The extensions among `ds` that are not folded. -/
def leftOver (ds : List Definition) : List TypeDeclaration :=
  (ds.filterMap extension?).filter fun e => !isFolded ds e

/-- The extensions among `ds` that a type gains: those of its name and kind, if no type with fields
of that name was defined earlier. -/
def additions (ds earlier : List Definition) (t : TypeDeclaration) : List TypeDeclaration :=
  if (firstBase? earlier t.name).isSome then []
  else (ds.filterMap extension?).filter fun e =>
    e.name == t.name && e.body.fieldedKind? == t.body.fieldedKind?

/-- The type `r` is `t` with the extensions `es`, and without the two directives. -/
structure Gains (es : List TypeDeclaration) (t r : TypeDeclaration) : Prop where
  position : r.position = t.position
  description : r.description = t.description
  name : r.name = t.name
  kind : r.body.fieldedKind? = t.body.fieldedKind?
  directives : r.directives = visible (t.directives ++ es.flatMap (·.directives))
  fields : List.Forall₂ ShownAs (sources t.body ++ es.flatMap (sources ·.body)) (sources r.body)
  interfaces : interfaceNames r.body = interfaceNames t.body ++
    ((es.flatMap (interfaceNames ·.body)).filter (!(interfaceNames t.body).contains ·)).eraseDups

/-- What a snapshot shows of the definition `d` among `ds`, which comes after `earlier`. -/
def Presents (ds earlier : List Definition) (d r : Definition) : Prop :=
  match base? d with
  | some t => ∃ u, r = .type u ∧ Gains (additions ds earlier t) t u
  | none => r = d

/-- What a snapshot shows of an extension that is not folded. -/
def PresentsAlone (e r : TypeDeclaration) : Prop :=
  if e.body.fieldedKind?.isSome then Gains [] e r else r = e

/-- The type or extension `r` says all that `t` says, apart from the two directives. -/
structure Includes (r t : TypeDeclaration) : Prop where
  name : r.name = t.name
  kind : r.body.fieldedKind? = t.body.fieldedKind?
  directives : (visible t.directives).Sublist r.directives
  fields : ∃ shown, List.Forall₂ ShownAs (sources t.body) shown ∧ shown.Sublist (sources r.body)
  interfaces : interfaceNames t.body ⊆ interfaceNames r.body
  others : t.body.fieldedKind? = none → r = t

/-! ### Stripped types -/

theorem strip_eq_visible (ds : List Directive) : strip ds = visible ds := rfl

theorem implemented_eq (t : TypeDeclaration) : implemented t = interfaceNames t.body := rfl

theorem shownAs_stripped (s : FieldSource) : ShownAs s s.stripped := by
  cases s with
  | output f => exact .output f
  | input v => exact .input v

theorem shownAs_map_stripped (ss : List FieldSource) :
    List.Forall₂ ShownAs ss (ss.map (·.stripped)) :=
  List.forall₂_map_right_iff.mpr (List.forall₂_same.mpr fun s _ => shownAs_stripped s)

/-- What is shown of a part of a list is a part of what is shown of the list. -/
theorem exists_shown_of_sublist {ss us vs : List FieldSource} (h : List.Forall₂ ShownAs us vs)
    (hs : ss.Sublist us) :
    ∃ shown, List.Forall₂ ShownAs ss shown ∧ shown.Sublist vs := by
  induction hs generalizing vs with
  | slnil => exact ⟨[], .nil, List.nil_sublist _⟩
  | cons u _ ih =>
    cases h with
    | cons _ hrest =>
      obtain ⟨shown, hshown, hsub⟩ := ih hrest
      exact ⟨shown, hshown, hsub.cons _⟩
  | cons_cons u _ ih =>
    cases h with
    | cons hhead hrest =>
      obtain ⟨shown, hshown, hsub⟩ := ih hrest
      exact ⟨_, .cons hhead hshown, hsub.cons_cons _⟩

theorem strip_append (ds es : List Directive) : strip (ds ++ es) = strip ds ++ strip es :=
  List.filter_append ds es

@[simp]
theorem strip_strip (ds : List Directive) : strip (strip ds) = strip ds := by
  simp [strip]

@[simp]
theorem stripField_stripField (f : Field) : stripField (stripField f) = stripField f := by
  simp [stripField]

@[simp]
theorem stripInput_stripInput (v : InputValue) : stripInput (stripInput v) = stripInput v := by
  simp [stripInput]

theorem sources_stripType (t : TypeDeclaration) :
    sources (stripType t).body = (sources t.body).map (·.stripped) := by
  cases h : t.body <;> simp [stripType, sources, h, FieldSource.stripped, Function.comp_def]

theorem directives_stripType {t : TypeDeclaration} (ht : t.body.fieldedKind?.isSome = true) :
    (stripType t).directives = strip t.directives := by
  cases h : t.body <;> simp [h, TypeBody.fieldedKind?] at ht <;> simp [stripType, h]

theorem implemented_stripType (t : TypeDeclaration) : implemented (stripType t) = implemented t := by
  cases h : t.body <;> simp [stripType, implemented, h]

theorem stripType_of_kind_none {t : TypeDeclaration} (h : t.body.fieldedKind? = none) :
    stripType t = t := by
  cases hbody : t.body <;> simp [hbody, TypeBody.fieldedKind?] at h <;> simp [stripType, hbody]

theorem stripType_stripType (t : TypeDeclaration) : stripType (stripType t) = stripType t := by
  cases h : t.body <;> simp [stripType, h, Function.comp_def]

/-- What a stripped type gains from a stripped extension is stripped. -/
theorem stripType_grow {t e : TypeDeclaration} (ht : stripType t = t) (he : stripType e = e) :
    stripType (grow t e) = grow t e := by
  rw [← ht, ← he]
  cases ht : t.body <;> cases he : e.body <;>
    simp [grow, mergeType, mergeBody, stripType, ht, he, strip_append, Function.comp_def]

theorem stripType_foldl_grow {es : List TypeDeclaration} {t : TypeDeclaration}
    (hes : ∀ e ∈ es, stripType e = e) (ht : stripType t = t) :
    stripType (es.foldl grow t) = es.foldl grow t := by
  induction es generalizing t with
  | nil => exact ht
  | cons e es ih =>
    obtain ⟨he, hrest⟩ := List.forall_mem_cons.mp hes
    exact ih hrest (stripType_grow ht he)

/-! ### What a type gains -/

/-- A type takes over what an extension of its kind says. -/
theorem grow_adds {t e : TypeDeclaration} (he : e.body.fieldedKind? = t.body.fieldedKind?)
    (ht : t.body.fieldedKind?.isSome = true) :
    (grow t e).directives = t.directives ++ e.directives ∧
      sources (grow t e).body = sources t.body ++ sources e.body ∧
      implemented (grow t e) = mergeInterfaces (implemented t) (implemented e) := by
  cases htb : t.body <;> simp only [htb, TypeBody.fieldedKind?, Option.isSome_none,
      Bool.false_eq_true] at ht <;> cases heb : e.body <;>
    simp [htb, heb, TypeBody.fieldedKind?] at he <;>
    simp [grow, mergeType, implemented, htb, heb, mergeBody, sources]
  rfl

theorem grow_position (t e : TypeDeclaration) : (grow t e).position = t.position := by
  unfold grow mergeType
  cases mergeBody t.body e.body <;> rfl

theorem grow_description (t e : TypeDeclaration) : (grow t e).description = t.description := by
  unfold grow mergeType
  cases mergeBody t.body e.body <;> rfl

/-- A type takes over what all extensions of its kind say, in their order. -/
theorem foldl_grow_adds (es : List TypeDeclaration) {t : TypeDeclaration}
    (ht : t.body.fieldedKind?.isSome = true)
    (hes : ∀ e ∈ es, e.body.fieldedKind? = t.body.fieldedKind?) :
    (es.foldl grow t).directives = t.directives ++ es.flatMap (·.directives) ∧
      sources (es.foldl grow t).body = sources t.body ++ es.flatMap (sources ·.body) ∧
      implemented (es.foldl grow t) = mergeInterfaces (implemented t) (es.flatMap implemented) := by
  induction es generalizing t with
  | nil => exact ⟨by simp, by simp, rfl⟩
  | cons e es ih =>
    obtain ⟨he, hrest⟩ := List.forall_mem_cons.mp hes
    obtain ⟨hdirectives, hfields, hinterfaces⟩ := grow_adds he ht
    obtain ⟨hdirectives', hfields', hinterfaces'⟩ := ih (t := grow t e) (by rwa [grow_kind])
      fun e he => (hrest e he).trans (grow_kind t _).symm
    rw [List.foldl_cons, hdirectives', hfields', hinterfaces', hdirectives, hfields, hinterfaces]
    exact ⟨by simp, by simp, by simp [mergeInterfaces, List.foldl_append]⟩

theorem foldl_grow_position (es : List TypeDeclaration) (t : TypeDeclaration) :
    (es.foldl grow t).position = t.position := by
  induction es generalizing t with
  | nil => rfl
  | cons e es ih => rw [List.foldl_cons, ih, grow_position]

theorem foldl_grow_description (es : List TypeDeclaration) (t : TypeDeclaration) :
    (es.foldl grow t).description = t.description := by
  induction es generalizing t with
  | nil => rfl
  | cons e es ih => rw [List.foldl_cons, ih, grow_description]

/-- Extensions of its kind, folded into a type after both were stripped. -/
theorem gains_foldl_grow {es : List TypeDeclaration} {t : TypeDeclaration}
    (ht : t.body.fieldedKind?.isSome = true)
    (hes : ∀ e ∈ es, e.body.fieldedKind? = t.body.fieldedKind?) :
    Gains es t ((es.map stripType).foldl grow (stripType t)) := by
  obtain ⟨hdirectives, hfields, hinterfaces⟩ := foldl_grow_adds (t := stripType t)
    (es.map stripType) (by rwa [stripType_kind]) fun e he => by
      obtain ⟨x, hx, rfl⟩ := List.mem_map.mp he
      rw [stripType_kind, stripType_kind, hes x hx]
  constructor
  case position =>
    rw [foldl_grow_position]
    unfold stripType
    split <;> rfl
  case description =>
    rw [foldl_grow_description]
    unfold stripType
    split <;> rfl
  case name => rw [foldl_grow_name, stripType_name]
  case kind => rw [foldl_grow_kind, stripType_kind]
  case directives =>
    have hadded : (es.map stripType).flatMap (·.directives) =
        es.flatMap fun e => strip e.directives := by
      rw [List.flatMap_map]
      exact List.flatMap_congr fun e he => directives_stripType (by rw [hes e he, ht])
    rw [hdirectives, directives_stripType ht, hadded, ← strip_eq_visible, strip_append]
    exact congrArg _ (List.filter_flatMap ..).symm
  case fields =>
    have hall : sources ((es.map stripType).foldl grow (stripType t)).body =
        (sources t.body ++ es.flatMap (sources ·.body)).map (·.stripped) := by
      rw [hfields, sources_stripType, List.map_append, List.map_flatMap, List.flatMap_map]
      simp only [sources_stripType]
    rw [hall]
    exact shownAs_map_stripped _
  case interfaces =>
    rw [← implemented_eq, hinterfaces, implemented_stripType, List.flatMap_map,
      mergeInterfaces_eq]
    simp only [implemented_stripType]
    rfl

/-- Taking over the interfaces of extensions one after the other is to merge them all. -/
theorem foldl_inheritFrom (es : List SourcedType) (names : List String) :
    es.foldl inheritFrom names =
      mergeInterfaces names (es.flatMap fun e => implemented e.declaration) := by
  unfold mergeInterfaces
  rw [List.foldl_flatMap]
  rfl

/-! ### Where the bases are -/

/-- A definition without the generator's directives. -/
def stripDefinition : Definition → Definition
  | .type t => .type (stripType t)
  | d => d

theorem bases_eq (ds : List Definition) : bases ds = (kept ds).map stripDefinition := by
  induction ds with
  | nil => rfl
  | cons d ds ih =>
    unfold bases kept at ih ⊢
    cases d with
    | directive d =>
      have hhidden : isHidden d.name = isGeneratorDirective d.name := rfl
      cases hname : isGeneratorDirective d.name <;>
        simp [isKept, hhidden, hname, ih, stripDefinition]
    | _ => simp [isKept, List.filter_cons, ih, stripDefinition]

theorem extensions_eq (ds : List Definition) :
    extensions ds = (ds.filterMap extension?).map stripType := by
  unfold extensions
  rw [List.map_filterMap]
  refine List.filterMap_congr fun d _ => ?_
  cases d <;> rfl

theorem stripDefinition_of_none {d : Definition} (h : base? d = none) : stripDefinition d = d := by
  cases d with
  | type t => exact congrArg _ (stripType_of_kind_none (by simpa [base?] using h))
  | _ => rfl

theorem base?_stripDefinition (d : Definition) :
    base? (stripDefinition d) = (base? d).map stripType := by
  cases d with
  | type t =>
    cases hkind : t.body.fieldedKind?.isSome <;>
      simp [stripDefinition, base?, stripType_kind, hkind]
  | _ => rfl

theorem firstBase?_of_none {d : Definition} (hd : base? d = none) (ds : List Definition)
    (n : String) : firstBase? (d :: ds) n = firstBase? ds n := by
  simp [firstBase?, hd]

theorem firstBase?_of_some {d : Definition} {t : TypeDeclaration} (hd : base? d = some t)
    (ds : List Definition) (n : String) :
    firstBase? (d :: ds) n = if t.name == n then some t else firstBase? ds n := by
  by_cases hname : t.name = n <;> simp [firstBase?, hd, hname, Option.filter_some]

theorem firstBase?_kept (ds : List Definition) (n : String) :
    firstBase? (kept ds) n = firstBase? ds n := by
  induction ds with
  | nil => rfl
  | cons d ds ih =>
    cases hd : base? d with
    | none =>
      rw [firstBase?_of_none hd, kept, List.filter_cons]
      split
      · rwa [firstBase?_of_none hd]
      · exact ih
    | some t =>
      have hkept : isKept d = true := by rw [(base?_eq_some hd).1]; rfl
      rw [firstBase?_of_some hd, kept, List.filter_cons_of_pos hkept, firstBase?_of_some hd,
        ← kept, ih]

theorem firstBase?_stripDefinition (ds : List Definition) (n : String) :
    firstBase? (ds.map stripDefinition) n = (firstBase? ds n).map stripType := by
  induction ds with
  | nil => rfl
  | cons d ds ih =>
    have hstripped := base?_stripDefinition d
    rw [List.map_cons]
    cases hd : base? d with
    | none =>
      rw [hd] at hstripped
      rw [firstBase?_of_none hd, firstBase?_of_none hstripped, ih]
    | some t =>
      rw [hd] at hstripped
      rw [firstBase?_of_some hd, firstBase?_of_some hstripped, stripType_name, ih]
      split <;> rfl

theorem takes_eq (e : TypeDeclaration) (ds : List Definition) : takes e ds = isFolded ds e := by
  unfold isFolded
  induction ds with
  | nil => rfl
  | cons d ds ih =>
    cases hd : base? d with
    | none => rw [firstBase?_of_none hd, takes, hd, ← ih]
    | some t =>
      rw [firstBase?_of_some hd, takes, hd]
      by_cases hname : t.name = e.name <;> simp [hname, ih]

/-- Stripping changes nothing about which extensions are folded. -/
theorem takes_bases (ds : List Definition) (e : TypeDeclaration) :
    takes (stripType e) (bases ds) = isFolded ds e := by
  rw [takes_eq, isFolded, bases_eq, firstBase?_stripDefinition, firstBase?_kept, stripType_name,
    isFolded]
  cases firstBase? ds e.name <;> simp [stripType_kind]

theorem leftOver_eq (ds : List Definition) :
    (extensions ds).filter (fun e => !takes e (bases ds)) = (leftOver ds).map stripType := by
  rw [extensions_eq, List.filter_map, leftOver]
  simp only [Function.comp_def, takes_bases]

/-! ### Places -/

theorem length_enlarged (es : List TypeDeclaration) (ds : List Definition) :
    (enlarged es ds).length = ds.length := by
  induction ds generalizing es with
  | nil => rfl
  | cons d ds ih =>
    unfold enlarged
    split <;> rw [List.length_cons, List.length_cons, ih]

/-- A definition that is no base stays what it is. -/
theorem enlarged_other {es : List TypeDeclaration} {before after : List Definition}
    {d : Definition} (hd : base? d = none) :
    (enlarged es (before ++ d :: after))[before.length]? = some d := by
  induction before generalizing es with
  | nil => simp [enlarged, hd]
  | cons b before ih =>
    rw [List.cons_append, enlarged]
    split <;> exact ih

/-- A base takes the extensions of its name that no base before it has taken. -/
theorem enlarged_base {es : List TypeDeclaration} {before after : List Definition}
    {d : Definition} {t : TypeDeclaration} (hd : base? d = some t) :
    (enlarged es (before ++ d :: after))[before.length]? =
      some (.type (if (firstBase? before t.name).isSome then t else grown es t)) := by
  induction before generalizing es with
  | nil => simp [enlarged, hd, firstBase?]
  | cons b before ih =>
    rw [List.cons_append, enlarged]
    cases hb : base? b with
    | none =>
      rw [firstBase?_of_none hb]
      exact ih
    | some u =>
      rw [firstBase?_of_some hb]
      refine (@ih (es.filter (·.name != u.name))).trans ?_
      by_cases hname : u.name = t.name
      · rw [hname, grown_without]
        simp
      · rw [grown_filter_of_ne hname]
        simp [hname]

/-- A type gains those extensions that are its additions. -/
theorem gains_additions (ds earlier : List Definition) {t : TypeDeclaration}
    (ht : t.body.fieldedKind?.isSome = true) :
    Gains (additions ds earlier t) t (if (firstBase? earlier t.name).isSome then stripType t
      else grown (extensions ds) (stripType t)) := by
  unfold additions
  split
  · exact gains_foldl_grow ht (List.forall_mem_nil _)
  · have hgrown : grown (extensions ds) (stripType t) =
        (((ds.filterMap extension?).filter fun e => e.name == t.name &&
          e.body.fieldedKind? == t.body.fieldedKind?).map stripType).foldl grow (stripType t) := by
      rw [grown, foldl_grow_filter, List.filter_filter, extensions_eq, List.filter_map]
      simp only [Function.comp_def, stripType_name, stripType_kind, Bool.and_comm]
    rw [hgrown]
    refine gains_foldl_grow ht fun e he => ?_
    obtain ⟨-, hkind⟩ := by simpa using (List.mem_filter.mp he).2
    exact hkind

/-- Every definition is presented in its place. -/
theorem presents_at (ds : List Definition) {before after : List Definition} {d : Definition}
    (h : kept ds = before ++ d :: after) :
    ∃ r, (enlarged (extensions ds) (bases ds))[before.length]? = some r ∧ Presents ds before d r := by
  have hlength : before.length = (before.map stripDefinition).length := by simp
  rw [bases_eq, h, List.map_append, List.map_cons, hlength]
  have hstripped := base?_stripDefinition d
  unfold Presents
  cases hd : base? d with
  | none =>
    rw [hd] at hstripped
    exact ⟨_, enlarged_other hstripped, stripDefinition_of_none hd⟩
  | some t =>
    rw [hd] at hstripped
    refine ⟨_, enlarged_base hstripped, _, rfl, ?_⟩
    rw [firstBase?_stripDefinition, Option.isSome_map, stripType_name]
    exact gains_additions ds before (base?_eq_some hd).2

/-! ### Nothing is lost -/

theorem includes_stripType (t : TypeDeclaration) : Includes (stripType t) t := by
  constructor
  case name => exact stripType_name t
  case kind => exact stripType_kind t
  case directives =>
    cases hkind : t.body.fieldedKind? with
    | none =>
      rw [stripType_of_kind_none hkind]
      exact List.filter_sublist
    | some k => rw [directives_stripType (by rw [hkind]; rfl), strip_eq_visible]
  case fields => exact ⟨_, shownAs_map_stripped _, sources_stripType t ▸ List.Sublist.refl _⟩
  case interfaces =>
    rw [← implemented_eq, ← implemented_eq, implemented_stripType]
    exact List.Subset.refl _
  case others => exact stripType_of_kind_none

theorem Gains.includes_self {es : List TypeDeclaration} {t r : TypeDeclaration}
    (h : Gains es t r) (ht : t.body.fieldedKind?.isSome = true) : Includes r t := by
  constructor
  case name => exact h.name
  case kind => exact h.kind
  case directives =>
    rw [h.directives]
    exact (List.sublist_append_left _ _).filter _
  case fields => exact exists_shown_of_sublist h.fields (List.sublist_append_left _ _)
  case interfaces =>
    rw [h.interfaces]
    exact List.subset_append_left _ _
  case others =>
    intro hnone
    rw [hnone] at ht
    cases ht

theorem Gains.includes {es : List TypeDeclaration} {t r e : TypeDeclaration} (h : Gains es t r)
    (ht : t.body.fieldedKind?.isSome = true) (he : e ∈ es) (hname : e.name = t.name)
    (hkind : e.body.fieldedKind? = t.body.fieldedKind?) : Includes r e := by
  have hadded : ∀ {α : Type} (f : TypeDeclaration → List α), (f e).Sublist (es.flatMap f) :=
    fun f => List.sublist_flatten_of_mem (List.mem_map_of_mem he)
  constructor
  case name => rw [h.name, hname]
  case kind => rw [h.kind, hkind]
  case directives =>
    rw [h.directives]
    exact ((hadded (·.directives)).trans (List.sublist_append_right _ _)).filter _
  case fields =>
    exact exists_shown_of_sublist h.fields
      ((hadded (sources ·.body)).trans (List.sublist_append_right _ _))
  case interfaces =>
    intro i hi
    rw [h.interfaces]
    by_cases hown : i ∈ interfaceNames t.body
    · exact List.mem_append_left _ hown
    · refine List.mem_append_right _ (List.mem_eraseDups.mpr (List.mem_filter.mpr ⟨?_, by simpa⟩))
      exact List.mem_flatMap.mpr ⟨e, he, hi⟩
  case others =>
    intro hnone
    rw [← hkind, hnone] at ht
    cases ht

/-- A type that is defined is included in what is shown in its place. -/
theorem includes_type (ds : List Definition) {t : TypeDeclaration} (ht : .type t ∈ ds) :
    ∃ r, .type r ∈ enlarged (extensions ds) (bases ds) ∧ Includes r t := by
  obtain ⟨before, after, hplace⟩ := List.append_of_mem
    (List.mem_filter.mpr ⟨ht, rfl⟩ : Definition.type t ∈ kept ds)
  obtain ⟨r, hr, hshown⟩ := presents_at ds hplace
  have hmem := List.mem_of_getElem? hr
  cases hkind : t.body.fieldedKind? with
  | none =>
    have hnone : base? (.type t) = none := by simp [base?, hkind]
    rw [Presents, hnone] at hshown
    obtain rfl := hshown
    have hself := includes_stripType t
    rw [stripType_of_kind_none hkind] at hself
    exact ⟨t, hmem, hself⟩
  | some k =>
    have hsome : t.body.fieldedKind?.isSome = true := by rw [hkind]; rfl
    rw [Presents, base?_type hsome] at hshown
    obtain ⟨u, rfl, hgains⟩ := hshown
    exact ⟨u, hmem, hgains.includes_self hsome⟩

/-- An extension that is folded is included in the first type of its name. -/
theorem includes_folded (ds : List Definition) {e : TypeDeclaration} (he : .extension e ∈ ds)
    (hfolded : isFolded ds e = true) :
    ∃ r, .type r ∈ enlarged (extensions ds) (bases ds) ∧ Includes r e := by
  obtain ⟨t, hfirst, hsame⟩ := (Option.any_eq_true ..).mp hfolded
  have hkind : e.body.fieldedKind? = t.body.fieldedKind? := (beq_iff_eq.mp hsame).symm
  obtain ⟨before, d, after, hplace, hd, hearlier⟩ :=
    List.findSome?_eq_some_iff.mp ((firstBase?_kept ds e.name).trans hfirst)
  obtain ⟨hbase, hnamed⟩ := Option.filter_eq_some_iff.mp hd
  have hname : e.name = t.name := (beq_iff_eq.mp hnamed).symm
  obtain ⟨r, hr, hshown⟩ := presents_at ds hplace
  rw [Presents, hbase] at hshown
  obtain ⟨u, rfl, hgains⟩ := hshown
  have hnone : firstBase? before t.name = none := by
    rw [← hname]
    exact List.findSome?_eq_none_iff.mpr hearlier
  have hadded : e ∈ additions ds before t := by
    rw [additions, hnone]
    exact List.mem_filter.mpr ⟨List.mem_filterMap.mpr ⟨_, he, rfl⟩, by simp [hname, hkind]⟩
  exact ⟨u, List.mem_of_getElem? hr,
    hgains.includes (base?_eq_some hbase).2 hadded hname hkind⟩

/-- Extensions that no type takes change nothing. -/
theorem enlarged_of_left {es : List TypeDeclaration} {ds : List Definition}
    (h : ∀ e ∈ es, takes e ds = false) : enlarged es ds = ds := by
  induction es using List.reverseRecOn with
  | nil => exact enlarged_nil ds
  | append_singleton es e ih =>
    rw [enlarged_append, ih fun x hx => h x (List.mem_append_left _ hx)]
    exact enlarged_of_not_takes (h e (List.mem_append_right _ (List.mem_singleton_self e)))

/-- Types that have grown are kept as they are, if all were stripped. -/
theorem settled_enlarged {es : List TypeDeclaration} {ds : List Definition}
    (hes : ∀ e ∈ es, stripType e = e) (hds : ∀ d ∈ ds, isKept d = true ∧ stripDefinition d = d) :
    ∀ d ∈ enlarged es ds, isKept d = true ∧ stripDefinition d = d := by
  induction ds generalizing es with
  | nil => exact fun d hd => nomatch hd
  | cons d ds ih =>
    obtain ⟨hd, hrest⟩ := List.forall_mem_cons.mp hds
    unfold enlarged
    split
    · rename_i t ht
      obtain ⟨rfl, -⟩ := base?_eq_some ht
      refine List.forall_mem_cons.mpr
        ⟨⟨rfl, congrArg Definition.type ?_⟩, ih (fun e he => hes e (List.mem_of_mem_filter he)) hrest⟩
      exact stripType_foldl_grow (fun e he => hes e (List.mem_of_mem_filter he))
        (Definition.type.inj hd.2)
    · exact List.forall_mem_cons.mpr ⟨hd, ih hes hrest⟩

/-- Folding once more changes nothing. -/
theorem fold_fold (ds : List Definition) : fold (fold ds) = fold ds := by
  have hextensions : ∀ e ∈ extensions ds, stripType e = e := by
    rw [extensions_eq]
    intro e he
    obtain ⟨x, -, rfl⟩ := List.mem_map.mp he
    exact stripType_stripType x
  have hbases : ∀ d ∈ bases ds, isKept d = true ∧ stripDefinition d = d := by
    rw [bases_eq]
    intro d hd
    obtain ⟨x, hx, rfl⟩ := List.mem_map.mp hd
    have hkept := (List.mem_filter.mp hx).2
    cases x with
    | type t => exact ⟨rfl, congrArg Definition.type (stripType_stripType t)⟩
    | _ => exact ⟨hkept, rfl⟩
  have hsettled := settled_enlarged hextensions hbases
  generalize hleft : (extensions ds).filter (fun e => !takes e (bases ds)) = left
  have hnot : ∀ e ∈ left, takes e (enlarged (extensions ds) (bases ds)) = false := by
    intro e he
    rw [← hleft] at he
    simpa [takes_enlarged] using (List.mem_filter.mp he).2
  have hstripped : ∀ e ∈ left, stripType e = e := fun e he =>
    hextensions e (List.mem_of_mem_filter (hleft ▸ he))
  -- The result has the types that it shows as bases, and the extensions that it kept.
  have hbases' : bases (fold ds) = enlarged (extensions ds) (bases ds) := by
    rw [fold_eq, hleft, bases_eq, kept, List.filter_append, List.filter_eq_self.mpr fun d hd =>
      (hsettled d hd).1, List.filter_eq_nil_iff.mpr (by simp [isKept]), List.append_nil]
    exact (List.map_congr_left fun d hd => (hsettled d hd).2).trans (List.map_id _)
  have hextensions' : extensions (fold ds) = left := by
    have hshown : (enlarged (extensions ds) (bases ds)).filterMap extension? = [] := by
      refine List.filterMap_eq_nil_iff.mpr fun d hd => ?_
      have hkept := (hsettled d hd).1
      cases d with
      | extension e => cases hkept
      | _ => rfl
    have hrest : (left.map Definition.extension).filterMap extension? = left := by
      rw [List.filterMap_map]
      exact List.filterMap_some
    rw [fold_eq, hleft, extensions_eq, List.filterMap_append, hshown, hrest, List.nil_append]
    exact (List.map_congr_left hstripped).trans (List.map_id _)
  rw [fold_eq (fold ds), hbases', hextensions', enlarged_of_left hnot, fold_eq ds, hleft]
  congr 2
  exact List.filter_eq_self.mpr fun e he => by rw [hnot e he]; rfl

/-- An extension that is left over is shown without the two directives. -/
theorem presentsAlone_stripType (e : TypeDeclaration) : PresentsAlone e (stripType e) := by
  unfold PresentsAlone
  split
  · next hkind => exact gains_foldl_grow hkind (List.forall_mem_nil _)
  · next hkind => exact stripType_of_kind_none (by simpa using hkind)

/-- What folding makes of some definitions, valid or not. -/
structure FoldsExactly (ds : List Definition) : Prop where
  /-- Every definition is shown in its place with all that it gains and nothing else, and after them
  the extensions that are not folded. -/
  shown : ∃ shown left, fold ds = shown ++ left.map .extension ∧ shown.length = (kept ds).length ∧
    (∀ before d after, kept ds = before ++ d :: after →
      ∃ r, shown[before.length]? = some r ∧ Presents ds before d r) ∧
    List.Forall₂ PresentsAlone (leftOver ds) left
  /-- Nothing that a type or an extension says is lost. -/
  included : ∀ t, .type t ∈ ds ∨ .extension t ∈ ds →
    ∃ r, (.type r ∈ fold ds ∨ .extension r ∈ fold ds) ∧ Includes r t
  /-- Folding once more changes nothing. -/
  settled : fold (fold ds) = fold ds

theorem fold_exact (ds : List Definition) : FoldsExactly ds := by
  have hfold : fold ds = enlarged (extensions ds) (bases ds) ++
      ((leftOver ds).map stripType).map .extension := by
    rw [fold_eq, leftOver_eq]
  constructor
  case shown =>
    refine ⟨_, _, hfold, ?_, fun before d after => presents_at ds, ?_⟩
    · rw [length_enlarged, bases_eq, List.length_map]
    · exact List.forall₂_map_right_iff.mpr
        (List.forall₂_same.mpr fun e _ => presentsAlone_stripType e)
  case included =>
    rintro t (ht | ht)
    · obtain ⟨r, hr, hincludes⟩ := includes_type ds ht
      exact ⟨r, Or.inl (hfold ▸ List.mem_append_left _ hr), hincludes⟩
    · cases hfolded : isFolded ds t with
      | true =>
        obtain ⟨r, hr, hincludes⟩ := includes_folded ds ht hfolded
        exact ⟨r, Or.inl (hfold ▸ List.mem_append_left _ hr), hincludes⟩
      | false =>
        refine ⟨_, Or.inr (hfold ▸ List.mem_append_right _ ?_), includes_stripType t⟩
        refine List.mem_map_of_mem (List.mem_map_of_mem (List.mem_filter.mpr ⟨?_, ?_⟩))
        · exact List.mem_filterMap.mpr ⟨_, ht, rfl⟩
        · simp [hfolded]
  case settled => exact fold_fold ds

/-- An extension before its type, with a field that has a resolver, and one of another kind. -/
theorem fold_exact_of_three :
    let avatar : Field := ⟨⟨1, 1⟩, none, "avatar", [⟨⟨1, 8⟩, none, "size", .named "Int", none, []⟩],
      .named "String", [⟨⟨1, 20⟩, "resolve", []⟩, ⟨⟨1, 29⟩, "deprecated", []⟩]⟩
    let early : TypeDeclaration := ⟨⟨1, 1⟩, none, "User", [], .object ["Node"] [avatar]⟩
    let user : TypeDeclaration := ⟨⟨2, 1⟩, none, "User", [⟨⟨2, 11⟩, "resolvers", []⟩], .object [] []⟩
    let other : TypeDeclaration := ⟨⟨3, 1⟩, none, "User", [], .input []⟩
    let ds : List Definition := [.extension early, .type user, .extension other]
    FoldsExactly ds ∧ kept ds = [.type user] ∧ leftOver ds = [other] ∧
      additions ds [] user = [early] :=
  ⟨fold_exact _, rfl, rfl, rfl⟩

end TypeLoom.Schema.Folding
