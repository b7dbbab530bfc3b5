import TypeLoom.Proofs.Emission.Reordering

/-!
# The order of files does not show

The files of a document may be read in any order. Main statement: if no operation is bound twice,
every order gives the same problems; and if there are none, the same is emitted for each file, apart
from the order within the interfaces of types that are extended.
-/

namespace TypeLoom.Schema.Document

/-- The same files declare something. -/
theorem Reordered.declaresIn_eq {d d' : Document} (h : Reordered d d') :
    d.declaresIn = d'.declaresIn := by
  funext file
  have hbare : ∀ rs : List Collected.ResolverField,
      (rs.map (·.bare)).any (·.field.file.same file) = rs.any (·.field.file.same file) := by
    intro rs
    rw [List.any_map]
    rfl
  have hfields : d.resolverFields.any (·.field.file.same file) =
      d'.resolverFields.any (·.field.file.same file) := by
    rw [← hbare, ← hbare d'.resolverFields]
    exact h.resolverFields_perm.any_eq
  rw [declaresIn, declaresIn, h.definedTypes_perm.any_eq, hfields]

end TypeLoom.Schema.Document

namespace TypeLoom.Generation

open Schema Declaration Collected

/-- The interface of a type as it is made in one order of files and in another one: the same, but if
the type is extended its bases and its members may be in another order. -/
inductive Rearranged (d : Document) : Declaration → Declaration → Prop
  | same (e : Declaration) : Rearranged d e e
  | extended {t e : SourcedType} (ht : t ∈ d.definedTypes) (he : e ∈ d.extendedTypes)
      (hname : e.declaration.name = t.declaration.name) {bases bases' : List String}
      {members members' : List Member} (hbases : bases.Perm bases')
      (hmembers : members.Perm members') :
      Rearranged d (.interface t.declaration.description t.declaration.name bases members)
        (.interface t.declaration.description t.declaration.name bases' members')

/-- What is emitted for a file in one order of files and in another one: the same, but for the
interfaces of its types, which come first. -/
structure SameModule (d : Document) (file : Path) (m m' : EmittedModule) : Prop where
  source : m.source = some file ∧ m'.source = some file
  importPath : m.importPath = m'.importPath
  output : m.output = m'.output
  imports : m.contents.imports = m'.contents.imports
  declarations : ∃ types types' rest, m.contents.declarations = types ++ rest ∧
    m'.contents.declarations = types' ++ rest ∧
    types.length = (d.definedTypes.filter (·.file.same file)).length ∧
    List.Forall₂ (Rearranged d) types types'

namespace Alike

variable {c c' : Context} {d d' : Document} (h : Alike c c' d d')
include h

theorem typeInterface_rearranged (paths : OutputPaths) {t : SourcedType} (ht : t ∈ d.definedTypes) :
    Rearranged d (typeInterface c paths t).value (typeInterface c' paths t).value := by
  have hvalue : ∀ c, (typeInterface c paths t).value =
      .interface t.declaration.description t.declaration.name
        ((inheritedInterfaces c t.declaration).filterMap fun n =>
          (mapName c paths t.location n).value.referenceName?)
        (((c.plain.get t.declaration.name).map (memberOf c paths)).map (·.value)) := by
    intro c
    simp [typeInterface, List.filterMap_map, Function.comp_def]
  rw [hvalue, hvalue]
  simp only [h.mapName_eq]
  by_cases hextended : ∃ e ∈ d.extendedTypes, e.declaration.name = t.declaration.name
  · obtain ⟨e, he, hname⟩ := hextended
    exact .extended ht he hname ((h.interfaces_perm t.declaration).filterMap _)
      ((h.members_perm paths t.declaration.name).map _)
  · have hnone : ∀ e ∈ d.extendedTypes, e.declaration.name ≠ t.declaration.name := fun e he heq =>
      hextended ⟨e, he, heq⟩
    rw [h.interfaces_eq hnone, h.members_eq paths hnone]
    exact .same _

theorem typeInterface_needs (paths : OutputPaths) (t : SourcedType) :
    (typeInterface c paths t).needs.Perm (typeInterface c' paths t).needs := by
  have hneeds : ∀ c, (typeInterface c paths t).needs =
      ((inheritedInterfaces c t.declaration).flatMap fun n =>
        (mapName c paths t.location n).needs) ++
      ((c.plain.get t.declaration.name).map (memberOf c paths)).flatMap (·.needs) := by
    intro c
    simp [typeInterface, List.flatMap_map]
  rw [hneeds, hneeds]
  simp only [h.mapName_eq]
  exact ((h.interfaces_perm t.declaration).flatMap_right _).append
    ((h.members_perm paths t.declaration.name).flatMap_right _)

/-- The same is imported. -/
theorem dependencies_eq (paths : OutputPaths) (file : Path) :
    (fileDeclarations c paths file).dependencies =
      (fileDeclarations c' paths file).dependencies := by
  refine Mapped.dependencies_eq_of_perm ?_
  simp only [fileDeclarations, Mapped.needs_bind, Mapped.needs_mapM, Mapped.needs_pure,
    List.append_nil, h.typesIn_eq, h.groups_eq]
  refine List.Perm.append_right _ (List.Perm.flatMap_left _ fun t _ => ?_)
  exact h.typeInterface_needs paths t

theorem sameModule (paths : OutputPaths) (file : Path) :
    SameModule d file (moduleFor c paths file) (moduleFor c' paths file) where
  source := ⟨rfl, rfl⟩
  importPath := rfl
  output := rfl
  imports := by
    unfold moduleFor
    rw [h.dependencies_eq]
  declarations := by
    have hvalue : ∀ c, (moduleFor c paths file).contents.declarations =
        (typesIn c file).map (fun t => (typeInterface c paths t).value) ++
          ((resolversIn c file).mapM (groupDeclarations c paths)).value.flatten := by
      intro c
      simp [moduleFor, fileDeclarations]
    refine ⟨_, _, _, hvalue c, by rw [hvalue c', ← h.groups_eq], ?_, ?_⟩
    · rw [List.length_map, (typesIn_perm h.collects file).length_eq]
    · rw [← h.typesIn_eq, List.forall₂_map_left_iff, List.forall₂_map_right_iff,
        List.forall₂_same]
      intro t ht
      exact h.typeInterface_rearranged paths
        (List.mem_of_mem_filter ((typesIn_perm h.collects file).mem_iff.mp ht))

end Alike

/-- What is found and emitted for a document and for a reordered one. -/
structure SameOutcome (settings : Settings) (paths : OutputPaths) (d d' : Document) : Prop where
  problems : (((Context.uncollected settings (some d)).collectDocument d).validate.problems ++
      extensionRule.check ((Context.uncollected settings (some d)).collectDocument d)).Perm
    (((Context.uncollected settings (some d')).collectDocument d').validate.problems ++
      extensionRule.check ((Context.uncollected settings (some d')).collectDocument d'))
  emitted : ((Context.uncollected settings (some d)).collectDocument d).validate.problems ++
      extensionRule.check ((Context.uncollected settings (some d)).collectDocument d) = [] →
    ∃ ms, ms.Perm (emit ((Context.uncollected settings (some d')).collectDocument d') paths).1 ∧
      List.Forall₂ (fun m m' => ∃ file, SameModule d file m m')
        (emit ((Context.uncollected settings (some d)).collectDocument d) paths).1 ms

/-- If no operation is bound twice and no type is defined twice, a document and a reordered one are
alike. -/
theorem alike_of_reordered (settings : Settings) {d d' : Document} (h : d.Reordered d')
    (honce : d.BindsOnce) (htypes : (d.definedTypes.map (·.declaration.name)).Nodup) :
    Alike ((Context.uncollected settings (some d)).collectDocument d)
      ((Context.uncollected settings (some d')).collectDocument d') d d' where
  reordered := h
  collects := collects_collectDocument settings (some d) d
  collects' := collects_collectDocument settings (some d') d'
  types := htypes
  names := by
    intro r hr r' hr' hbare
    have hfile : r.field.file = r'.field.file := congrArg (·.field.file) hbare
    have hparent : r.field.parent = r'.field.parent := congrArg (·.field.parent) hbare
    have hname : r.field.name = r'.field.name := congrArg (·.field.name) hbare
    rw [resolverNameOf, resolverNameOf, operationOfField_eq settings (some d) hr,
      operationOfField_eq settings (some d') hr', hfile, hparent, hname,
      operationOf_eq settings h honce]

end TypeLoom.Generation
