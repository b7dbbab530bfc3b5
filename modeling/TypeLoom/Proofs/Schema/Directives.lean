import Mathlib.Data.List.Perm.Basic
import TypeLoom.Proofs.Schema.Folded

/-!
# Where directives stand in a snapshot

A directive can stand at twelve kinds of places, and a snapshot shows each of them as a place of
that kind. The generator's directives are dropped at five: at types with fields and at their fields.
Main statement: a snapshot shows exactly the directives of the document that are not dropped there.
-/

namespace TypeLoom.Schema

/-- The kinds of places where a directive can stand. -/
inductive Site where
  | schema
  | scalar
  | object
  | interface
  | union
  | enum
  | input
  | field
  | argument
  | enumValue
  | inputField
  | directiveArgument
  deriving DecidableEq, Repr

/-- Whether the generator's directives are dropped at a place. -/
def Site.isCleared : Site → Bool
  | .object | .interface | .input | .field | .inputField => true
  | _ => false

/-- A directive and where it stands. -/
structure Use where
  site : Site
  directive : Directive

namespace Use

/-- Whether a use is one of the generator's directives. -/
def isGenerators (u : Use) : Bool := isGeneratorDirective u.directive.name

/-- Whether a use is dropped. -/
def isDropped (u : Use) : Bool := u.site.isCleared && u.isGenerators

end Use

/-- Directives at one place. -/
def usesAt (s : Site) (ds : List Directive) : List Use := ds.map (⟨s, ·⟩)

def InputValue.uses (s : Site) (v : InputValue) : List Use := usesAt s v.directives

def Field.uses (f : Field) : List Use :=
  usesAt .field f.directives ++ f.arguments.flatMap (InputValue.uses .argument)

def EnumValue.uses (v : EnumValue) : List Use := usesAt .enumValue v.directives

namespace TypeBody

/-- The place of the directives of a type. -/
def site : TypeBody → Site
  | .scalar => .scalar
  | .object .. => .object
  | .interface .. => .interface
  | .union _ => .union
  | .enum _ => .enum
  | .input _ => .input

/-- The directives inside a type. -/
def uses : TypeBody → List Use
  | .object _ fields | .interface _ fields => fields.flatMap Field.uses
  | .enum values => values.flatMap EnumValue.uses
  | .input fields => fields.flatMap (InputValue.uses .inputField)
  | .scalar | .union _ => []

end TypeBody

def TypeDeclaration.uses (t : TypeDeclaration) : List Use :=
  usesAt t.body.site t.directives ++ t.body.uses

def Definition.uses : Definition → List Use
  | .schema b => usesAt .schema b.directives
  | .directive d => d.arguments.flatMap (InputValue.uses .directiveArgument)
  | .type t | .extension t => t.uses

/-- All directives that stand in some definitions. -/
def uses (ds : List Definition) : List Use := ds.flatMap Definition.uses

/-- Whether a definition is that of one of the generator's directives. -/
def Definition.isGenerators : Definition → Bool
  | .directive d => isGeneratorDirective d.name
  | _ => false

@[simp] theorem uses_nil : uses [] = [] := rfl

@[simp] theorem uses_cons (d : Definition) (ds : List Definition) :
    uses (d :: ds) = d.uses ++ uses ds := rfl

@[simp] theorem uses_append (ds es : List Definition) : uses (ds ++ es) = uses ds ++ uses es :=
  List.flatMap_append

namespace Folding

/-! ### Stripping -/

/-- Stripping drops the generator's directives of a place that is cleared. -/
theorem usesAt_strip {s : Site} (hs : s.isCleared = true) (ds : List Directive) :
    usesAt s (strip ds) = (usesAt s ds).filter (!·.isDropped) := by
  rw [strip, usesAt, usesAt, List.filter_map]
  congr 1
  refine List.filter_congr fun d _ => ?_
  simp [Use.isDropped, Use.isGenerators, hs]

/-- Where a place is not cleared, all its directives stay. -/
theorem filter_usesAt {s : Site} (hs : s.isCleared = false) (ds : List Directive) :
    (usesAt s ds).filter (!·.isDropped) = usesAt s ds := by
  refine List.filter_eq_self.mpr ?_
  intro u hu
  obtain ⟨d, -, rfl⟩ := List.mem_map.mp hu
  simp [Use.isDropped, hs]

theorem filter_flatMap_of_eq {α : Type} {xs : List α} {f g : α → List Use}
    (h : ∀ x, g x = (f x).filter (!·.isDropped)) :
    (xs.flatMap f).filter (!·.isDropped) = xs.flatMap g := by
  rw [List.filter_flatMap]
  exact List.flatMap_congr fun x _ => (h x).symm

/-- The arguments of a field or directive are not cleared. -/
theorem filter_arguments {s : Site} (hs : s.isCleared = false) (vs : List InputValue) :
    (vs.flatMap (InputValue.uses s)).filter (!·.isDropped) = vs.flatMap (InputValue.uses s) :=
  filter_flatMap_of_eq fun v => (filter_usesAt hs v.directives).symm

theorem uses_stripField (f : Field) : (stripField f).uses = f.uses.filter (!·.isDropped) := by
  rw [Field.uses, Field.uses, List.filter_append, filter_arguments rfl]
  exact congrArg (· ++ _) (usesAt_strip rfl f.directives)

theorem uses_stripInput (v : InputValue) :
    (stripInput v).uses .inputField = (v.uses .inputField).filter (!·.isDropped) :=
  usesAt_strip rfl v.directives

/-- Stripping a type drops what is to be dropped of it and nothing else. -/
theorem uses_stripType (t : TypeDeclaration) :
    (stripType t).uses = t.uses.filter (!·.isDropped) := by
  rw [TypeDeclaration.uses, TypeDeclaration.uses, List.filter_append]
  cases h : t.body with
  | object interfaces fields =>
    simp only [stripType, h, TypeBody.site, TypeBody.uses, List.flatMap_map]
    rw [usesAt_strip rfl, filter_flatMap_of_eq uses_stripField]
  | interface interfaces fields =>
    simp only [stripType, h, TypeBody.site, TypeBody.uses, List.flatMap_map]
    rw [usesAt_strip rfl, filter_flatMap_of_eq uses_stripField]
  | input fields =>
    simp only [stripType, h, TypeBody.site, TypeBody.uses, List.flatMap_map]
    rw [usesAt_strip rfl, filter_flatMap_of_eq uses_stripInput]
  | enum values =>
    simp only [stripType, h, TypeBody.site, TypeBody.uses]
    have hvalues : ∀ v : EnumValue, v.uses = v.uses.filter (!·.isDropped) := fun v =>
      (filter_usesAt rfl v.directives).symm
    rw [filter_usesAt rfl, filter_flatMap_of_eq hvalues]
  | scalar =>
    simp only [stripType, h, TypeBody.site, TypeBody.uses, List.filter_nil]
    rw [filter_usesAt rfl]
  | union members =>
    simp only [stripType, h, TypeBody.site, TypeBody.uses, List.filter_nil]
    rw [filter_usesAt rfl]

/-- A definition that is no extension keeps its place and loses what is to be dropped of it. -/
theorem uses_stripDefinition {d : Definition} (hd : isKept d = true) :
    (stripDefinition d).uses = d.uses.filter (!·.isDropped) := by
  cases d with
  | schema b => exact (filter_usesAt rfl b.directives).symm
  | directive d => exact (filter_arguments rfl d.arguments).symm
  | type t => exact uses_stripType t
  | extension t => cases hd

/-! ### Folding -/

/-- A type that an extension is folded into has the directives of both. -/
theorem uses_mergeType {t e merged : TypeDeclaration} (h : mergeType t e = some merged) :
    merged.uses.Perm (t.uses ++ e.uses) := by
  obtain ⟨body, hbody, rfl⟩ := Option.map_eq_some_iff.mp h
  have hsite : body.site = t.body.site ∧ e.body.site = t.body.site ∧
      body.uses = t.body.uses ++ e.body.uses := by
    cases ht : t.body <;> cases he : e.body <;> rw [ht, he] at hbody <;> cases hbody <;>
      exact ⟨rfl, rfl, by simp [TypeBody.uses]⟩
  obtain ⟨hmerged, hadded, huses⟩ := hsite
  simp only [TypeDeclaration.uses, hmerged, hadded, huses, usesAt, List.map_append,
    List.append_assoc]
  refine List.Perm.append_left _ ?_
  rw [← List.append_assoc, ← List.append_assoc]
  exact List.perm_append_comm.append_right _

/-- Definitions that absorb an extension have its directives and their own. -/
theorem uses_absorb {e : TypeDeclaration} {ds folded : List Definition}
    (h : absorb e ds = some folded) : (uses folded).Perm (uses ds ++ e.uses) := by
  induction ds generalizing folded with
  | nil => cases h
  | cons d ds ih =>
    simp only [absorb] at h
    split at h
    · split at h
      · next t _ =>
        obtain ⟨merged, hmerged, rfl⟩ := Option.map_eq_some_iff.mp h
        have hgrown := (uses_mergeType hmerged).append_right (uses ds)
        refine hgrown.trans ?_
        rw [uses_cons, List.append_assoc, List.append_assoc]
        exact List.perm_append_comm.append_left t.uses
      · cases h
    · obtain ⟨rest, hrest, rfl⟩ := Option.map_eq_some_iff.mp h
      rw [uses_cons, uses_cons, List.append_assoc]
      exact (ih hrest).append_left d.uses

/-- Folding one extension, or leaving it over, loses and repeats no directive. -/
theorem uses_foldStep (s : List Definition × List TypeDeclaration) (e : TypeDeclaration) :
    (uses (foldStep s e).1 ++ (foldStep s e).2.flatMap (·.uses)).Perm
      (uses s.1 ++ s.2.flatMap (·.uses) ++ e.uses) := by
  unfold foldStep
  split
  · next folded hfolded =>
    refine ((uses_absorb hfolded).append_right _).trans ?_
    rw [List.append_assoc, List.append_assoc]
    exact List.perm_append_comm.append_left (uses s.1)
  · simp

theorem uses_foldl_foldStep (es : List TypeDeclaration)
    (s : List Definition × List TypeDeclaration) :
    (uses (es.foldl foldStep s).1 ++ (es.foldl foldStep s).2.flatMap (·.uses)).Perm
      (uses s.1 ++ s.2.flatMap (·.uses) ++ es.flatMap (·.uses)) := by
  induction es generalizing s with
  | nil => simp
  | cons e es ih =>
    refine (ih (foldStep s e)).trans (((uses_foldStep s e).append_right _).trans ?_)
    rw [List.flatMap_cons, List.append_assoc _ e.uses]

/-- The bases have the directives of their definitions, without those that are dropped. -/
theorem uses_bases (ds : List Definition) :
    uses (bases ds) = (uses (kept ds)).filter (!·.isDropped) := by
  rw [bases_eq, uses, uses, List.flatMap_map, List.filter_flatMap]
  exact List.flatMap_congr fun d hd => uses_stripDefinition (List.of_mem_filter hd)

theorem uses_extensions (ds : List Definition) : (extensions ds).flatMap (·.uses) =
    ((ds.filterMap extension?).flatMap (·.uses)).filter (!·.isDropped) := by
  rw [extensions_eq, List.flatMap_map, filter_flatMap_of_eq uses_stripType]

/-- Each definition is kept or an extension, if it is not that of a directive of the generator. -/
theorem uses_kept_extension? (ds : List Definition) :
    (uses (kept ds) ++ (ds.filterMap extension?).flatMap (·.uses)).Perm
      (uses (ds.filter (!·.isGenerators))) := by
  induction ds with
  | nil => exact .refl _
  | cons d ds ih =>
    cases d with
    | schema b =>
      have hboth := ih.append_left (Definition.schema b).uses
      rwa [← List.append_assoc] at hboth
    | type t =>
      have hboth := ih.append_left (Definition.type t).uses
      rwa [← List.append_assoc] at hboth
    | directive d =>
      have hhidden : isHidden d.name = isGeneratorDirective d.name := rfl
      cases hname : isGeneratorDirective d.name with
      | true =>
        rw [kept, List.filter_cons_of_neg (by simp [isKept, hhidden, hname]),
          List.filterMap_cons_none rfl, List.filter_cons_of_neg (by simp [Definition.isGenerators,
          hname])]
        exact ih
      | false =>
        rw [kept, List.filter_cons_of_pos (by simp [isKept, hhidden, hname]),
          List.filterMap_cons_none rfl,
          List.filter_cons_of_pos (by simp [Definition.isGenerators, hname]), uses_cons, uses_cons,
          List.append_assoc]
        exact ih.append_left _
    | extension e =>
      have hmoved : (uses (kept ds) ++ (e.uses ++ (ds.filterMap extension?).flatMap (·.uses))).Perm
          (e.uses ++ (uses (kept ds) ++ (ds.filterMap extension?).flatMap (·.uses))) := by
        rw [← List.append_assoc, ← List.append_assoc]
        exact List.perm_append_comm.append_right _
      exact hmoved.trans (ih.append_left e.uses)

theorem uses_fold (ds : List Definition) :
    (uses (fold ds)).Perm ((uses (ds.filter (!·.isGenerators))).filter (!·.isDropped)) := by
  have hleft : ∀ es : List TypeDeclaration, uses (es.map .extension) = es.flatMap (·.uses) :=
    fun es => List.flatMap_map ..
  have hfold := uses_foldl_foldStep (extensions ds) (bases ds, [])
  rw [List.flatMap_nil, List.append_nil] at hfold
  rw [uses_bases, uses_extensions, ← List.filter_append] at hfold
  rw [fold, uses_append, hleft]
  exact hfold.trans ((uses_kept_extension? ds).filter _)

/-- A snapshot shows each directive of the definitions once and at a place of its kind, those of the
generator apart that stand at types with fields and at the fields of such types. So none of the
generator's directives is shown exactly if all of them stand there, or in the definitions of the
generator's directives themselves. -/
theorem fold_directives (ds : List Definition) :
    (uses (fold ds)).Perm ((uses (ds.filter (!·.isGenerators))).filter (!·.isDropped)) ∧
      ((∀ u ∈ uses (fold ds), u.isGenerators = false) ↔
        ∀ u ∈ uses (ds.filter (!·.isGenerators)), u.isGenerators = true →
          u.site.isCleared = true) := by
  have hperm := uses_fold ds
  refine ⟨hperm, ?_⟩
  constructor
  · intro hfree u hu hown
    by_contra hsite
    have hshown : u ∈ uses (fold ds) :=
      hperm.mem_iff.mpr (List.mem_filter.mpr ⟨hu, by simp [Use.isDropped, hsite]⟩)
    rw [hfree u hshown] at hown
    cases hown
  · intro hcleared u hu
    obtain ⟨hsource, hstays⟩ := List.mem_filter.mp (hperm.mem_iff.mp hu)
    by_contra hown
    rw [Bool.not_eq_false] at hown
    simp [Use.isDropped, hown, hcleared u hsource hown] at hstays

/-- A directive of the generator at a scalar is shown. -/
example : (uses (fold [.type ⟨⟨1, 1⟩, none, "Date", [⟨⟨1, 13⟩, "resolve", []⟩], .scalar⟩])).map
    (fun u => (u.site, u.isGenerators)) = [(.scalar, true)] := by rfl

end Folding

end TypeLoom.Schema
