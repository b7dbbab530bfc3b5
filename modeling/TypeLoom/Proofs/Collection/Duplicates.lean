import TypeLoom.Collected.Validation
import TypeLoom.Proofs.Collection.Partition
import TypeLoom.Proofs.Path.Order

/-!
# What validation reports

A document repeats a type that it defines more than once, a field of a type that it declares more
than once, and a resolver name that different fields of a type share. Main statement: validation
adds one problem for each of these, which lists all the declarations in order, and no other.
-/

namespace TypeLoom.Collected

open Schema

/-- What a document may repeat: a type, a field of a type or a resolver name within a type. -/
inductive Subject where
  | type (name : String)
  | field (type name : String)
  | resolver (type name : String)
  deriving DecidableEq, Repr

/-- The problem of repeating something at some places. -/
def Subject.problem : Subject → List Location → Problem
  | .type n, ls => .duplicateType n ls
  | .field t n, ls => .duplicateField t n ls
  | .resolver t n, ls => .duplicateResolverName t n ls

/-- What a problem says to be repeated, if it is one of repetition. -/
def subject? : Problem → Option Subject
  | .duplicateType n _ => some (.type n)
  | .duplicateField t n _ => some (.field t n)
  | .duplicateResolverName t n _ => some (.resolver t n)
  | _ => none

/-- The problems of a list that say something to be repeated. -/
def about (s : Subject) (ps : List Problem) : List Problem := ps.filter (subject? · == some s)

end TypeLoom.Collected

namespace TypeLoom.Schema.Document

open Collected

/-- All fields that are not malformed. -/
def classifiedFields (d : Document) : List CollectedField :=
  d.plainFields ++ d.resolverFields.map (·.field)

/-- Where a type is defined, a field declared or a resolver name given. -/
def locationsOf (d : Document) : Subject → List Location
  | .type n => (d.definedTypes.filter (·.declaration.name == n)).map (·.location)
  | .field t n => (d.classifiedFields.filter fun f => f.parent == t && f.name == n).map (·.location)
  | .resolver t n => (d.resolverFields.filter fun r =>
      r.field.parent == t && r.resolver == n).map (·.field.location)

/-- Types and fields are repeated if they are declared more than once, and resolver names if fields
of different names have them. -/
def Repeats (d : Document) : Subject → Prop
  | .resolver t n => ∃ r ∈ d.resolverFields, ∃ s ∈ d.resolverFields,
      (r.field.parent = t ∧ r.resolver = n) ∧ (s.field.parent = t ∧ s.resolver = n) ∧
        r.field.name ≠ s.field.name
  | s => 1 < (d.locationsOf s).length

end TypeLoom.Schema.Document

namespace TypeLoom.Collected

open Schema

/-- Problems that report what a document repeats: each thing once, with all its places in order, and
nothing else. -/
structure ReportsRepeated (d : Document) (ps : List Problem) : Prop where
  only : ∀ p ∈ ps, (subject? p).isSome = true
  each : ∀ s, d.Repeats s → ∃ ls, about s ps = [s.problem ls] ∧ ls.Perm (d.locationsOf s) ∧
    ls.Pairwise fun l k => (l.compare k).isLE = true
  none_other : ∀ s, ¬d.Repeats s → about s ps = []

section

variable {α β κ : Type}

theorem filter_filterMap_eq {f : α → Option β} {p : β → Bool} {q : α → Bool}
    (h : ∀ a b, f a = some b → p b = q a) (l : List α) :
    (l.filterMap f).filter p = (l.filter q).filterMap f := by
  induction l with
  | nil => rfl
  | cons a l ih =>
    cases hf : f a with
    | none => cases hq : q a <;> simp [hf, hq, ih]
    | some b =>
      have hp := h a b hf
      cases hq : q a <;> simp [hf, hp, hq, ih]

theorem filter_flatMap_eq {f : α → List β} {p : β → Bool} {q : α → Bool}
    (h : ∀ a, q a = false → (f a).filter p = []) (l : List α) :
    (l.flatMap f).filter p = (l.filter q).flatMap fun a => (f a).filter p := by
  induction l with
  | nil => rfl
  | cons a l ih =>
    cases hq : q a with
    | false => simp [hq, h a hq, ih]
    | true => simp [hq, ih]

@[simp]
theorem subject?_problem (s : Subject) (ls : List Location) : subject? (s.problem ls) = some s := by
  cases s <;> rfl

/-- The problem of a group, if it offends. -/
def groupProblem (subject : κ → Subject) (offends : List α → Bool) (place : α → Location)
    (e : κ × List α) : Option Problem :=
  if offends e.2 then some ((subject e.1).problem (Location.sorted (e.2.map place))) else none

theorem subject?_of_groupProblem {subject : κ → Subject} {offends : List α → Bool}
    {place : α → Location} {e : κ × List α} {p : Problem}
    (h : groupProblem subject offends place e = some p) : subject? p = some (subject e.1) := by
  unfold groupProblem at h
  split at h
  · cases h
    simp
  · cases h

/-- The problem of a key, if what it holds offends. -/
def keyProblems (subject : κ → Subject) (offends : List α → Bool) (place : α → Location) (k : κ)
    (xs : List α) : List Problem :=
  if offends xs then [(subject k).problem (Location.sorted (xs.map place))] else []

/-- Of each key there is one problem if its group offends, and none otherwise. -/
theorem about_groups [BEq κ] [LawfulBEq κ] {g : Grouping κ α} {key : α → κ} {xs : List α}
    (hg : g.Holds key xs) {subject : κ → Subject} (hsubject : Function.Injective subject)
    (offends : List α → Bool) (hempty : offends [] = false) (place : α → Location) (k : κ) :
    about (subject k) (g.filterMap (groupProblem subject offends place)) =
      keyProblems subject offends place k (xs.filter fun x => key x == k) := by
  have hkey : ∀ e p, groupProblem subject offends place e = some p →
      (subject? p == some (subject k)) = (e.1 == k) := by
    intro e p hp
    rw [subject?_of_groupProblem hp, Bool.eq_iff_iff]
    simp [hsubject.eq_iff]
  unfold about
  rw [filter_filterMap_eq hkey, hg.filter_key]
  split
  · rename_i hnone
    rw [List.isEmpty_iff.mp hnone]
    simp [keyProblems, hempty]
  · cases hoffends : offends (xs.filter fun x => key x == k) <;>
      simp [groupProblem, keyProblems, hoffends]

/-- Of each key of a group within a group there is one problem if its group offends. -/
theorem about_nested {g : Grouping String α} {key : α → String} {xs : List α}
    (hg : g.Holds key xs) {subject : String → String → Subject}
    (hsubject : ∀ t u n m, subject t n = subject u m → t = u ∧ n = m) (name : α → String)
    (offends : List α → Bool) (hempty : offends [] = false) (place : α → Location)
    (t n : String) :
    about (subject t n) (g.flatMap fun e =>
        (Grouping.ofList name e.2).filterMap (groupProblem (subject e.1) offends place)) =
      keyProblems (subject t) offends place n
        ((xs.filter fun x => key x == t).filter fun x => name x == n) := by
  have hinj : Function.Injective (subject t) := fun n m h => (hsubject t t n m h).2
  have hother : ∀ e : String × List α, (e.1 == t) = false →
      ((Grouping.ofList name e.2).filterMap (groupProblem (subject e.1) offends place)).filter
        (subject? · == some (subject t n)) = [] := by
    intro e he
    rw [List.filter_eq_nil_iff]
    intro p hp hsame
    obtain ⟨x, -, hx⟩ := List.mem_filterMap.mp hp
    have heq := beq_iff_eq.mp hsame
    rw [subject?_of_groupProblem hx, Option.some.injEq] at heq
    exact absurd (hsubject _ _ _ _ heq).1 (by simpa using he)
  unfold about
  rw [filter_flatMap_eq hother, hg.filter_key]
  split
  · rename_i hnone
    rw [List.isEmpty_iff.mp hnone]
    simp [keyProblems, hempty]
  · have hgroup := about_groups (Grouping.holds_ofList name (xs.filter fun x => key x == t)) hinj
      offends hempty place n
    simpa [about] using hgroup

end

/-- Whether a list has several elements. -/
def several {α : Type} (xs : List α) : Bool := decide (1 < xs.length)

/-- Whether fields differ in their names. -/
def namesDiffer (rs : List ResolverField) : Bool := !Context.allAgree (rs.map (·.field.name))

theorem namesDiffer_iff {rs : List ResolverField} :
    namesDiffer rs = true ↔ ∃ r ∈ rs, ∃ s ∈ rs, r.field.name ≠ s.field.name := by
  cases rs with
  | nil => simp [namesDiffer, Context.allAgree]
  | cons r rs =>
    have hagree : Context.allAgree ((r :: rs).map (·.field.name)) = true ↔
        ∀ s ∈ rs, r.field.name = s.field.name := by
      simp [Context.allAgree]
    rw [namesDiffer, Bool.not_eq_true', Bool.eq_false_iff, Ne, hagree]
    constructor
    · intro hsome
      push Not at hsome
      obtain ⟨s, hs, hne⟩ := hsome
      exact ⟨r, by simp, s, by simp [hs], hne⟩
    · rintro ⟨s, hs, q, hq, hne⟩ hall
      have hfirst : ∀ s ∈ r :: rs, r.field.name = s.field.name := by simpa using hall
      exact hne ((hfirst s hs).symm.trans (hfirst q hq))

variable {c : Context} {d : Document}

namespace Context

/-- The definitions of all kinds by name. -/
def typesByName (c : Context) : Grouping String SourcedType :=
  (c.objects ++ c.interfaces ++ c.inputs).foldl (fun g e => g.addAll e.1 e.2) .empty

theorem duplicateTypes_eq (c : Context) :
    c.duplicateTypes = c.typesByName.filterMap (groupProblem .type several (·.location)) := by
  have hmerged := Grouping.foldl_addAll_mapValues (κ := String) SourcedType.location
    (c.objects ++ c.interfaces ++ c.inputs) .empty
  have hparts : Grouping.mapValues SourcedType.location (c.objects ++ c.interfaces ++ c.inputs) =
      Grouping.mapValues SourcedType.location c.objects ++
        Grouping.mapValues SourcedType.location c.interfaces ++
        Grouping.mapValues SourcedType.location c.inputs := by
    simp [Grouping.mapValues]
  rw [hparts] at hmerged
  have hall : c.duplicateTypes = (Grouping.mapValues SourcedType.location c.typesByName).filterMap
      fun e => if 1 < e.2.length then some (.duplicateType e.1 (Location.sorted e.2)) else none := by
    unfold typesByName
    rw [← hmerged]
    rfl
  rw [hall, Grouping.mapValues, List.filterMap_map]
  congr 1
  funext e
  simp [groupProblem, several, Subject.problem]

theorem duplicateFields_eq (c : Context) :
    c.duplicateFields = c.fieldsByType.flatMap fun e =>
      (Grouping.ofList (·.name) e.2).filterMap (groupProblem (.field e.1) several (·.location)) := by
  unfold duplicateFields
  congr 1
  funext ⟨type, fs⟩
  apply List.filterMap_congr
  intro e _
  simp [groupProblem, several, Subject.problem]

theorem duplicateResolvers_eq (c : Context) :
    c.duplicateResolvers = c.resolvers.flatMap fun e =>
      (Grouping.ofList (·.resolver) e.2).filterMap
        (groupProblem (.resolver e.1) namesDiffer (·.field.location)) := by
  unfold duplicateResolvers
  congr 1
  funext ⟨type, fs⟩
  apply List.filterMap_congr
  rintro ⟨name, same⟩ _
  cases h : allAgree (same.map (·.field.name)) <;>
    simp [groupProblem, Subject.problem, namesDiffer, h]

theorem subject?_of_mem_duplicateTypes {p : Problem} (hp : p ∈ c.duplicateTypes) :
    ∃ n, subject? p = some (.type n) := by
  rw [duplicateTypes_eq] at hp
  obtain ⟨e, -, he⟩ := List.mem_filterMap.mp hp
  exact ⟨e.1, subject?_of_groupProblem he⟩

theorem subject?_of_mem_duplicateFields {p : Problem} (hp : p ∈ c.duplicateFields) :
    ∃ t n, subject? p = some (.field t n) := by
  rw [duplicateFields_eq] at hp
  obtain ⟨e, -, he⟩ := List.mem_flatMap.mp hp
  obtain ⟨g, -, hg⟩ := List.mem_filterMap.mp he
  exact ⟨e.1, g.1, subject?_of_groupProblem hg⟩

theorem subject?_of_mem_duplicateResolvers {p : Problem} (hp : p ∈ c.duplicateResolvers) :
    ∃ t n, subject? p = some (.resolver t n) := by
  rw [duplicateResolvers_eq] at hp
  obtain ⟨e, -, he⟩ := List.mem_flatMap.mp hp
  obtain ⟨g, -, hg⟩ := List.mem_filterMap.mp he
  exact ⟨e.1, g.1, subject?_of_groupProblem hg⟩

end Context

namespace Collects

theorem typesByName (hc : Collects c d) :
    c.typesByName.Holds (·.declaration.name)
      (c.objects.values ++ c.interfaces.values ++ c.inputs.values) := by
  have hgroups : ∀ e ∈ c.objects ++ c.interfaces ++ c.inputs,
      e.2 ≠ [] ∧ ∀ t ∈ e.2, t.declaration.name = e.1 := by
    intro e he
    rcases List.mem_append.mp he with he | he
    · rcases List.mem_append.mp he with he | he
      · exact ⟨hc.objects.nonempty e he, fun t => hc.objects.key_of_mem he⟩
      · exact ⟨hc.interfaces.nonempty e he, fun t => hc.interfaces.key_of_mem he⟩
    · exact ⟨hc.inputs.nonempty e he, fun t => hc.inputs.key_of_mem he⟩
  have hholds := (Grouping.holds_empty (κ := String) fun t : SourcedType => t.declaration.name).addEach
    ((c.objects ++ c.interfaces ++ c.inputs).flatMap (·.2))
  rw [← Grouping.foldl_addAll hgroups, List.nil_append, List.flatMap_append,
    List.flatMap_append] at hholds
  exact hholds

theorem fieldsByType (hc : Collects c d) :
    c.fieldsByType.Holds (·.parent) (c.plain.values ++ c.resolvers.values.map (·.field)) := by
  have hgroups : ∀ e ∈ c.plain ++ c.resolvers.mapValues (·.field),
      e.2 ≠ [] ∧ ∀ f ∈ e.2, f.parent = e.1 := by
    intro e he
    rcases List.mem_append.mp he with he | he
    · exact ⟨hc.plain.nonempty e he, fun f => hc.plain.key_of_mem he⟩
    · obtain ⟨g, hg, rfl⟩ := List.mem_map.mp he
      refine ⟨by simpa using hc.resolvers.nonempty g hg, ?_⟩
      intro f hf
      obtain ⟨r, hr, rfl⟩ := List.mem_map.mp hf
      exact hc.resolvers.key_of_mem hg hr
  have hholds := (Grouping.holds_empty (κ := String) fun f : CollectedField => f.parent).addEach
    ((c.plain ++ c.resolvers.mapValues (·.field)).flatMap (·.2))
  rw [← Grouping.foldl_addAll hgroups] at hholds
  have hvalues : (c.plain ++ c.resolvers.mapValues (·.field)).flatMap (·.2) =
      c.plain.values ++ c.resolvers.values.map (·.field) := by
    simp [Grouping.values, Grouping.mapValues, List.flatMap_map, List.map_flatMap]
  rw [List.nil_append, hvalues] at hholds
  exact hholds

theorem fields_perm (hc : Collects c d) :
    (c.plain.values ++ c.resolvers.values.map (·.field)).Perm d.classifiedFields :=
  hc.plain.values_perm.append (hc.resolvers.values_perm.map _)

theorem about_duplicateTypes (hc : Collects c d) (n : String) :
    ∃ ts : List SourcedType, (ts.map (·.location)).Perm (d.locationsOf (.type n)) ∧
      about (.type n) c.duplicateTypes = keyProblems .type several (·.location) n ts := by
  have habout := about_groups hc.typesByName (fun _ _ => Subject.type.inj) several rfl
    (·.location) n
  rw [← Context.duplicateTypes_eq] at habout
  exact ⟨_, (hc.types_perm.filter _).map _, habout⟩

theorem about_duplicateFields (hc : Collects c d) (t n : String) :
    ∃ fs : List CollectedField, (fs.map (·.location)).Perm (d.locationsOf (.field t n)) ∧
      about (.field t n) c.duplicateFields =
        keyProblems (.field t) several (·.location) n fs := by
  have habout := about_nested hc.fieldsByType (fun _ _ _ _ => Subject.field.inj) (·.name)
    several rfl (·.location) t n
  rw [← Context.duplicateFields_eq, List.filter_filter] at habout
  simp only [Bool.and_comm] at habout
  exact ⟨_, (hc.fields_perm.filter _).map _, habout⟩

theorem about_duplicateResolvers (hc : Collects c d) (t n : String) :
    about (.resolver t n) c.duplicateResolvers =
      keyProblems (.resolver t) namesDiffer (·.field.location) n
        (d.resolverFields.filter fun r => r.field.parent == t && r.resolver == n) := by
  have habout := about_nested hc.resolvers (fun _ _ _ _ => Subject.resolver.inj) (·.resolver)
    namesDiffer rfl (·.field.location) t n
  rw [← Context.duplicateResolvers_eq, List.filter_filter] at habout
  simpa only [Bool.and_comm] using habout

end Collects

theorem several_iff {α : Type} {place : α → Location} {xs : List α} {places : List Location}
    (h : (xs.map place).Perm places) : several xs = true ↔ 1 < places.length := by
  rw [several, decide_eq_true_iff, ← h.length_eq, List.length_map]

/-- A repeated resolver name is one whose fields differ in their names. -/
theorem namesDiffer_iff_repeats (t n : String) :
    namesDiffer (d.resolverFields.filter fun r => r.field.parent == t && r.resolver == n) = true ↔
      d.Repeats (.resolver t n) := by
  rw [namesDiffer_iff]
  simp only [List.mem_filter, Bool.and_eq_true, beq_iff_eq, Document.Repeats, and_assoc]
  constructor
  · rintro ⟨r, hr, hrt, hrn, s, hs, hst, hsn, hne⟩
    exact ⟨r, hr, s, hs, hrt, hrn, hst, hsn, hne⟩
  · rintro ⟨r, hr, s, hs, hrt, hrn, hst, hsn, hne⟩
    exact ⟨r, hr, hrt, hrn, s, hs, hst, hsn, hne⟩

theorem about_append (s : Subject) (ps qs : List Problem) :
    about s (ps ++ qs) = about s ps ++ about s qs := List.filter_append ..

theorem about_eq_nil {s : Subject} {ps : List Problem} (h : ∀ p ∈ ps, subject? p ≠ some s) :
    about s ps = [] := by
  rw [about, List.filter_eq_nil_iff]
  intro p hp hs
  exact h p hp (beq_iff_eq.mp hs)

/-- What a context that holds a document finds repeated, is. -/
theorem Collects.about_duplicates (hc : Collects c d) (s : Subject) :
    ∃ places offends, places.Perm (d.locationsOf s) ∧ (offends = true ↔ d.Repeats s) ∧
      about s (c.duplicateTypes ++ c.duplicateFields ++ c.duplicateResolvers) =
        if offends then [s.problem (Location.sorted places)] else [] := by
  rw [about_append, about_append]
  cases s with
  | type n =>
    obtain ⟨ts, hperm, habout⟩ := hc.about_duplicateTypes n
    have hfields : about (.type n) c.duplicateFields = [] := about_eq_nil fun p hp heq => by
      obtain ⟨t, m, hm⟩ := Context.subject?_of_mem_duplicateFields hp
      simp [hm] at heq
    have hresolvers : about (.type n) c.duplicateResolvers = [] := about_eq_nil fun p hp heq => by
      obtain ⟨t, m, hm⟩ := Context.subject?_of_mem_duplicateResolvers hp
      simp [hm] at heq
    refine ⟨_, _, hperm, several_iff hperm, ?_⟩
    rw [habout, hfields, hresolvers, List.append_nil, List.append_nil]
    rfl
  | field t n =>
    obtain ⟨fs, hperm, habout⟩ := hc.about_duplicateFields t n
    have htypes : about (.field t n) c.duplicateTypes = [] := about_eq_nil fun p hp heq => by
      obtain ⟨m, hm⟩ := Context.subject?_of_mem_duplicateTypes hp
      simp [hm] at heq
    have hresolvers : about (.field t n) c.duplicateResolvers = [] := about_eq_nil fun p hp heq => by
      obtain ⟨u, m, hm⟩ := Context.subject?_of_mem_duplicateResolvers hp
      simp [hm] at heq
    refine ⟨_, _, hperm, several_iff hperm, ?_⟩
    rw [habout, htypes, hresolvers, List.nil_append, List.append_nil]
    rfl
  | resolver t n =>
    have htypes : about (.resolver t n) c.duplicateTypes = [] := about_eq_nil fun p hp heq => by
      obtain ⟨m, hm⟩ := Context.subject?_of_mem_duplicateTypes hp
      simp [hm] at heq
    have hfields : about (.resolver t n) c.duplicateFields = [] := about_eq_nil fun p hp heq => by
      obtain ⟨u, m, hm⟩ := Context.subject?_of_mem_duplicateFields hp
      simp [hm] at heq
    refine ⟨_, _, List.Perm.refl _, namesDiffer_iff_repeats t n, ?_⟩
    rw [hc.about_duplicateResolvers, htypes, hfields]
    rfl

theorem Collects.reportsRepeated (hc : Collects c d) :
    ReportsRepeated d (c.duplicateTypes ++ c.duplicateFields ++ c.duplicateResolvers) where
  only := by
    intro p hp
    rcases List.mem_append.mp hp with hp | hp
    · rcases List.mem_append.mp hp with hp | hp
      · obtain ⟨n, hn⟩ := Context.subject?_of_mem_duplicateTypes hp
        simp [hn]
      · obtain ⟨t, n, hn⟩ := Context.subject?_of_mem_duplicateFields hp
        simp [hn]
    · obtain ⟨t, n, hn⟩ := Context.subject?_of_mem_duplicateResolvers hp
      simp [hn]
  each := by
    intro s hs
    obtain ⟨places, offends, hperm, hoffends, habout⟩ := hc.about_duplicates s
    rw [if_pos (hoffends.mpr hs)] at habout
    exact ⟨_, habout, (Location.sorted_perm places).trans hperm, Location.sorted_pairwise places⟩
  none_other := by
    intro s hs
    obtain ⟨places, offends, -, hoffends, habout⟩ := hc.about_duplicates s
    rwa [if_neg fun h => hs (hoffends.mp h)] at habout

theorem Collects.addProblems (hc : Collects c d) (ps : List Problem) :
    Collects (c.addProblems ps) d :=
  ⟨hc.plain, hc.resolvers, hc.objects, hc.interfaces, hc.inputs, hc.extensions⟩

/-- Validation adds to the problems of a collected document exactly what the document repeats, and
changes nothing else. Of the problems known then, `earlier` were there before the document was
collected and `found` were added by other checks since. -/
theorem validate_reports_repeated (settings : Generation.Settings) (loaded : Option Document)
    (earlier found : List Problem) (d : Document) :
    let c := (((Context.uncollected settings loaded).addProblems earlier).collectDocument
      d).addProblems found
    ∃ ps, ReportsRepeated d ps ∧ c.validate = { c with problems := c.problems ++ ps } := by
  intro c
  have hcollects := (collects_collectDocument_after settings loaded earlier d).addProblems found
  exact ⟨_, hcollects.reportsRepeated, rfl⟩

end TypeLoom.Collected
