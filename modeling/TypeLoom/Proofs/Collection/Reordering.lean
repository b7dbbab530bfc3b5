import TypeLoom.Proofs.Collection.Findings
import TypeLoom.Proofs.Schema.Reordering
import TypeLoom.Proofs.Sorting

/-!
# What does not depend on the order of files

A field is known by its definition and by nothing of the order of the document but its place. So
documents that differ in the order of their files declare the same, apart from places. Main
statements: they have the same problems, if neither binds an operation twice, and the same types
belong to the same operations.
-/

namespace TypeLoom.Collected

open Schema

/-- A field without its place in the document. -/
def CollectedField.bare (f : CollectedField) : CollectedField := { f with id := ⟨0, 0⟩ }

def ResolverField.bare (r : ResolverField) : ResolverField := { r with field := r.field.bare }

namespace DeclaredField

variable (f : DeclaredField)

@[simp]
theorem bare_fate : f.bare.fate = f.fate := rfl

@[simp]
theorem bare_collected : f.bare.collected = f.collected.bare := by
  cases f with | mk id file declaration source => cases source <;> rfl

theorem bare_plain? : f.bare.plain? = f.plain?.map (·.bare) := by
  simp only [plain?, bare_fate, bare_collected]
  cases f.fate <;> rfl

theorem bare_resolver? : f.bare.resolver? = f.resolver?.map (·.bare) := by
  simp only [resolver?, bare_fate, bare_collected]
  cases f.fate <;> rfl

end DeclaredField

end TypeLoom.Collected

namespace TypeLoom.Schema.Document

open Collected

variable {d d' : Document}

theorem declaredFields_bare (d : Document) :
    d.declaredFields.map (·.bare) = d.definitions.flatMap bareFields :=
  declaredFields_map (fun file t s => DeclaredField.mk ⟨0, 0⟩ file t s) d

theorem plainFields_bare (d : Document) :
    d.plainFields.map (·.bare) = (d.definitions.flatMap bareFields).filterMap (·.plain?) := by
  rw [← declaredFields_bare, List.filterMap_map, plainFields, List.map_filterMap]
  exact List.filterMap_congr fun f _ => f.bare_plain?.symm

theorem resolverFields_bare (d : Document) :
    d.resolverFields.map (·.bare) = (d.definitions.flatMap bareFields).filterMap (·.resolver?) := by
  rw [← declaredFields_bare, List.filterMap_map, resolverFields, List.map_filterMap]
  exact List.filterMap_congr fun f _ => f.bare_resolver?.symm

/-- Of lists that agree apart from places, what does not depend on places agrees. -/
theorem perm_of_bare {α β : Type} {bare : α → α} {p : α → Bool} {g : α → β} {xs ys : List α}
    (h : (xs.map bare).Perm (ys.map bare)) (hp : ∀ x, p (bare x) = p x)
    (hg : ∀ x, g (bare x) = g x) : ((xs.filter p).map g).Perm ((ys.filter p).map g) := by
  have hbare : ∀ zs : List α, ((zs.map bare).filter p).map g = (zs.filter p).map g := by
    intro zs
    have hp' : p ∘ bare = p := funext hp
    have hg' : g ∘ bare = g := funext hg
    rw [List.filter_map, List.map_map, hp', hg']
  rw [← hbare xs, ← hbare ys]
  exact (h.filter p).map g

/-- What a document declares, it declares in the file of a definition. -/
theorem location_file {s : Subject} {l : Location} (hl : l ∈ d.locationsOf s) :
    ∃ x ∈ d.definitions, l.file = x.file := by
  have hplain : ∀ f ∈ d.plainFields, ∃ x ∈ d.definitions, f.file = x.file := by
    intro f hf
    obtain ⟨g, hg, hplain⟩ := List.mem_filterMap.mp hf
    obtain ⟨x, hx, hfile, -⟩ := mem_declaredFields hg
    exact ⟨x, hx, by rw [DeclaredField.eq_of_plain? hplain, DeclaredField.collected_file, hfile]⟩
  have hresolver : ∀ r ∈ d.resolverFields, ∃ x ∈ d.definitions, r.field.file = x.file := by
    intro r hr
    obtain ⟨g, hg, hresolver⟩ := List.mem_filterMap.mp hr
    obtain ⟨x, hx, hfile, -⟩ := mem_declaredFields hg
    exact ⟨x, hx, by
      rw [DeclaredField.eq_of_resolver? hresolver, DeclaredField.collected_file, hfile]⟩
  cases s with
  | type n =>
    obtain ⟨t, ht, rfl⟩ := List.mem_map.mp hl
    obtain ⟨x, hx, hfile, -⟩ := mem_definedTypes (List.mem_of_mem_filter ht)
    exact ⟨x, hx, hfile⟩
  | field t n =>
    obtain ⟨f, hf, rfl⟩ := List.mem_map.mp hl
    rcases List.mem_append.mp (List.mem_of_mem_filter hf) with hf | hf
    · exact hplain f hf
    · obtain ⟨r, hr, rfl⟩ := List.mem_map.mp hf
      exact hresolver r hr
  | resolver t n =>
    obtain ⟨r, hr, rfl⟩ := List.mem_map.mp hl
    exact hresolver r (List.mem_of_mem_filter hr)

namespace Reordered

variable (h : Reordered d d')
include h

theorem definedTypes_perm : d.definedTypes.Perm d'.definedTypes := h.definitions.filterMap _

theorem extendedTypes_perm : d.extendedTypes.Perm d'.extendedTypes := h.definitions.filterMap _

theorem bareFields_perm :
    (d.definitions.flatMap bareFields).Perm (d'.definitions.flatMap bareFields) :=
  h.definitions.flatMap_right _

theorem plainFields_perm : (d.plainFields.map (·.bare)).Perm (d'.plainFields.map (·.bare)) := by
  rw [plainFields_bare, plainFields_bare]
  exact h.bareFields_perm.filterMap _

theorem resolverFields_perm :
    (d.resolverFields.map (·.bare)).Perm (d'.resolverFields.map (·.bare)) := by
  rw [resolverFields_bare, resolverFields_bare]
  exact h.bareFields_perm.filterMap _

theorem classifiedFields_perm :
    (d.classifiedFields.map (·.bare)).Perm (d'.classifiedFields.map (·.bare)) := by
  have hresolvers := h.resolverFields_perm.map (·.field)
  rw [List.map_map, List.map_map] at hresolvers
  rw [classifiedFields, classifiedFields, List.map_append, List.map_append, List.map_map,
    List.map_map]
  exact h.plainFields_perm.append hresolvers

/-- What a document repeats stands at the same places. -/
theorem locationsOf_perm (s : Subject) : (d.locationsOf s).Perm (d'.locationsOf s) := by
  cases s with
  | type n => exact (h.definedTypes_perm.filter _).map _
  | field t n => exact perm_of_bare h.classifiedFields_perm (fun _ => rfl) fun _ => rfl
  | resolver t n => exact perm_of_bare h.resolverFields_perm (fun _ => rfl) fun _ => rfl

theorem exists_bare {r : ResolverField} (hr : r ∈ d.resolverFields) :
    ∃ r' ∈ d'.resolverFields, r'.bare = r.bare :=
  List.mem_map.mp (h.resolverFields_perm.mem_iff.mp (List.mem_map_of_mem hr))

theorem repeats_of {s : Subject} (hs : d.Repeats s) : d'.Repeats s := by
  have hlength := (h.locationsOf_perm s).length_eq
  cases s with
  | type n => exact Nat.lt_of_lt_of_eq (m := (d.locationsOf (.type n)).length) hs hlength
  | field t n => exact Nat.lt_of_lt_of_eq (m := (d.locationsOf (.field t n)).length) hs hlength
  | resolver t n =>
    obtain ⟨r, hr, s, hs, hrn, hsn, hne⟩ := hs
    obtain ⟨r', hr', hrr⟩ := h.exists_bare hr
    obtain ⟨s', hs', hss⟩ := h.exists_bare hs
    have hkeep : ∀ {r r' : ResolverField}, r'.bare = r.bare → r'.field.parent = r.field.parent ∧
        r'.resolver = r.resolver ∧ r'.field.name = r.field.name := fun heq =>
      ⟨congrArg (·.field.parent) heq, congrArg (·.resolver) heq, congrArg (·.field.name) heq⟩
    obtain ⟨hrp, hrr', hrf⟩ := hkeep hrr
    obtain ⟨hsp, hsr', hsf⟩ := hkeep hss
    exact ⟨r', hr', s', hs', ⟨hrp ▸ hrn.1, hrr' ▸ hrn.2⟩, ⟨hsp ▸ hsn.1, hsr' ▸ hsn.2⟩,
      hrf ▸ hsf ▸ hne⟩

theorem symm : Reordered d' d where
  definitions := h.definitions.symm
  files := h.files.symm
  each := fun file => (h.each file).symm
  spelt := fun x hx y hy => h.spelt x (h.definitions.mem_iff.mpr hx) y (h.definitions.mem_iff.mpr hy)
  positions := fun file => h.each file ▸ h.positions file
  loaded := h.loaded'
  loaded' := h.loaded

/-- Places in order are known from what they are, however they were found. -/
theorem sorted_eq {s : Subject} {ls ks : List Location} (hls : ls.Perm (d.locationsOf s))
    (hks : ks.Perm (d'.locationsOf s)) (hl : ls.Pairwise fun l k => (l.compare k).isLE = true)
    (hk : ks.Pairwise fun l k => (l.compare k).isLE = true) : ls = ks := by
  refine List.Perm.eq_of_pairwise ?_ hl hk (hls.trans ((h.locationsOf_perm s).trans hks.symm))
  intro l k hl hk hlk hkl
  obtain ⟨hfile, hposition⟩ := Location.eq_of_isLE hlk hkl
  obtain ⟨x, hx, hlx⟩ := location_file (hls.mem_iff.mp hl)
  obtain ⟨y, hy, hky⟩ := location_file (hks.mem_iff.mp hk)
  rw [hlx, hky] at hfile
  have hsame := h.spelt x hx y (h.definitions.mem_iff.mpr hy) hfile
  cases l
  cases k
  exact congr (congrArg Location.mk (hlx.trans (hsame.trans hky.symm))) hposition

/-- What is reported as repeated is the same. -/
theorem reports_perm {ps qs : List Problem} (hp : ReportsRepeated d ps)
    (hq : ReportsRepeated d' qs) : ps.Perm qs := by
  have habout : ∀ s, about s ps = about s qs := by
    intro s
    by_cases hs : d.Repeats s
    · obtain ⟨ls, hps, hls, hlsorted⟩ := hp.each s hs
      obtain ⟨ks, hqs, hks, hksorted⟩ := hq.each s (h.repeats_of hs)
      rw [hps, hqs, h.sorted_eq hls hks hlsorted hksorted]
    · rw [hp.none_other s hs, hq.none_other s fun hs' => hs (h.symm.repeats_of hs')]
  refine Sorting.perm_of_filter_eq subject? fun k => ?_
  cases k with
  | none =>
    have hnone : ∀ {d : Document} {ps : List Problem}, ReportsRepeated d ps →
        ps.filter (fun p => subject? p = none) = [] := by
      intro d ps hp
      rw [List.filter_eq_nil_iff]
      intro p hmem hnone
      have hsome := hp.only p hmem
      rw [of_decide_eq_true hnone] at hsome
      cases hsome
    rw [hnone hp, hnone hq]
  | some s => simpa [about, beq_eq_decide] using habout s

theorem roots_perm : d.roots.Perm d'.roots := h.definitions.flatMap_right _

theorem bindsOnce (honce : d.BindsOnce) : d'.BindsOnce :=
  (h.roots_perm.map _).nodup honce

end Reordered

end TypeLoom.Schema.Document

namespace TypeLoom.Collected

open Schema Document

section

variable {c c' : Context} {d d' : Document} (hc : Collects c d) (hc' : Collects c' d')
  (h : Reordered d d')
include hc hc' h

theorem isDefinedAs_eq (n : String) (kind : Option FieldedKind) :
    c.isDefinedAs n kind = c'.isDefinedAs n kind := by
  rw [Bool.eq_iff_iff, hc.isDefinedAs_iff, hc'.isDefinedAs_iff]
  constructor
  · rintro ⟨t, ht, hkind⟩
    exact ⟨t, h.definedTypes_perm.mem_iff.mp ht, hkind⟩
  · rintro ⟨t, ht, hkind⟩
    exact ⟨t, h.definedTypes_perm.mem_iff.mpr ht, hkind⟩

theorem undefinedExtensions_perm : c.undefinedExtensions.Perm c'.undefinedExtensions := by
  unfold Context.undefinedExtensions
  simp only [isDefinedAs_eq hc hc' h]
  have hvalues := hc.extensions.values_perm.trans
    (h.extendedTypes_perm.trans hc'.extensions.values_perm.symm)
  exact hvalues.filterMap _

theorem isObjectName_eq (n : String) : c.isObjectName n = c'.isObjectName n := by
  have hdefined : c.objects.hasKey n = c'.objects.hasKey n :=
    isDefinedAs_eq hc hc' h n (some .object)
  have hextended : (c.extensions.get n).Perm (c'.extensions.get n) := by
    rw [hc.extensions.get_eq, hc'.extensions.get_eq]
    exact h.extendedTypes_perm.filter _
  rw [Context.isObjectName, Context.isObjectName, hdefined, hextended.any_eq]

theorem root?_eq (honce : d.BindsOnce) (hroots : c.roots = d.roots) (hroots' : c'.roots = d'.roots)
    (hblock : c.hasSchemaBlock = c'.hasSchemaBlock) (o : Operation) : c.root? o = c'.root? o := by
  have hbound : c.roots.find? (·.operation == o) = c'.roots.find? (·.operation == o) := by
    rw [← List.head?_filter, ← List.head?_filter, hroots, hroots',
      Sorting.filter_eq_of_perm h.roots_perm honce]
  rw [Context.root?, Context.root?, hbound, hblock, isObjectName_eq hc hc' h]

end

section

variable (settings : Generation.Settings) {d d' : Document} (h : Reordered d d')
  (honce : d.BindsOnce)
include h honce

/-- The operation of a type does not depend on the order of files. -/
theorem operationOf_eq (type : String) :
    ((Context.uncollected settings (some d)).collectDocument d).operationOf type =
      ((Context.uncollected settings (some d')).collectDocument d').operationOf type := by
  have hfound := finds_collectDocument settings (some d) honce
  have hfound' := finds_collectDocument settings (some d') (h.bindsOnce honce)
  have hblock : d.definitions.any isSchemaBlock = d'.definitions.any isSchemaBlock :=
    h.definitions.any_eq
  have hroot := root?_eq (collects_collectDocument settings (some d) d)
    (collects_collectDocument settings (some d') d') h honce hfound.roots hfound'.roots
    (by rw [hfound.block, hfound'.block, hblock]; rfl)
  rw [Context.operationOf, Context.operationOf, hroot, hroot]

/-- The problems of a document do not depend on the order of files. -/
theorem problems_perm :
    (((Context.uncollected settings (some d)).collectDocument d).validate.problems ++
      extensionRule.check ((Context.uncollected settings (some d)).collectDocument d)).Perm
    (((Context.uncollected settings (some d')).collectDocument d').validate.problems ++
      extensionRule.check ((Context.uncollected settings (some d')).collectDocument d')) := by
  have hfound := finds_collectDocument settings (some d) honce
  have hfound' := finds_collectDocument settings (some d') (h.bindsOnce honce)
  have hc := collects_collectDocument settings (some d) d
  have hc' := collects_collectDocument settings (some d') d'
  have hcollected : ((Context.uncollected settings (some d)).collectDocument d).problems.Perm
      ((Context.uncollected settings (some d')).collectDocument d').problems := by
    rw [hfound.problems, hfound'.problems]
    exact (h.definitions.flatMap_right _).append_left _
  exact (hcollected.append (h.reports_perm hc.reportsRepeated hc'.reportsRepeated)).append
    (undefinedExtensions_perm hc hc' h)

end

end TypeLoom.Collected
