import TypeLoom.ResolverModule.Merge
import TypeLoom.TypeScript.Syntax
import TypeLoom.Proofs.Edit.Replacement
import TypeLoom.Proofs.Reading.Placement

/-!
# What a merge leaves alone

A module is brought up to date by at most three replacements: one for the import, one for the
annotation of the variable and one for its object literal. They stand apart, so together they are
one replacement, and all other text is reproduced as it is.
-/

namespace TypeLoom.ResolverModule

open Edit (Apart replaced)

/-- Where the import of the type may be written: a point at the start of the text or in or right
after an import statement, or the braces of one that bind nothing. -/
def ImportTarget (m : Outline) (s : Span) : Prop :=
  (s.start = s.stop ∧
    (s.start = 0 ∨ ∃ i ∈ m.imports, i.span.start < s.start ∧ s.start ≤ i.span.stop)) ∨
    ∃ i ∈ m.imports, ∃ n ∈ i.named, n.locals = [] ∧ s = n.span

/-- Where the type may be written: over the annotation of the variable, or right after its name. -/
def AnnotationTarget (m : Outline) (s : Span) : Prop :=
  ∃ b ∈ m.binding, (∃ a ∈ b.annotation, s = a.1) ∨
    s = ⟨b.nameStop, b.nameStop⟩ ∧ b.annotation = none

/-- Where the object may be written: over that of the variable, or at the end of the text. -/
def ObjectTarget (m : Outline) (stop : Nat) (s : Span) : Prop :=
  (∃ b ∈ m.binding, s = b.object.span) ∨ (m.binding = none ∧ s = ⟨stop, stop⟩)

theorem ImportTarget.bounds {m : Outline} {stop : Nat} {s : Span} (h : ImportTarget m s)
    (hm : m.Placed stop) : s.start ≤ s.stop ∧ s.stop ≤ stop ∧
      ∀ b ∈ m.binding, s.stop < b.nameStop ∨ b.object.span.stop ≤ s.start := by
  rcases h with ⟨hpoint, hzero | ⟨i, hi, hlt, hle⟩⟩ | ⟨i, hi, n, hn, -, rfl⟩
  · refine ⟨by omega, by omega, ?_⟩
    intro b hb
    have hname := (hm.binding b hb).name
    omega
  · have hstop := (hm.imports i hi).2
    refine ⟨by omega, by omega, ?_⟩
    intro b hb
    have hapart := hm.apart i hi b hb
    omega
  · obtain ⟨hplaced, hstop⟩ := hm.imports i hi
    have hspan := hplaced.named n hn
    refine ⟨by omega, by omega, ?_⟩
    intro b hb
    have hapart := hm.apart i hi b hb
    omega

theorem AnnotationTarget.bounds {m : Outline} {stop : Nat} {s : Span} (h : AnnotationTarget m s)
    (hm : m.Placed stop) :
    ∃ b ∈ m.binding, b.nameStop ≤ s.start ∧ s.start ≤ s.stop ∧ s.stop ≤ b.object.span.start := by
  obtain ⟨b, hb, ⟨a, ha, rfl⟩ | ⟨rfl, -⟩⟩ := h
  · have hann := (hm.binding b hb).typed a ha
    exact ⟨b, hb, hann.1, Nat.le_of_lt hann.2.1, hann.2.2⟩
  · have hvalue := (hm.binding b hb).value
    exact ⟨b, hb, Nat.le_refl _, Nat.le_refl _, hvalue⟩

/-- The edits of a variable stand apart, the annotation before the object. -/
theorem bindingEdits_apart {m : Outline} {stop lo hi : Nat} {ann obj : Option Edit}
    (hm : m.Placed stop) (hann : ∀ e ∈ ann, AnnotationTarget m e.span)
    (hobj : ∀ e ∈ obj, ObjectTarget m stop e.span) (hle : lo ≤ hi)
    (hsome : ∀ b ∈ m.binding, lo ≤ b.nameStop ∧ b.object.span.stop ≤ hi)
    (hnone : m.binding = none → lo ≤ stop ∧ stop ≤ hi) :
    Apart lo (ann.toList ++ obj.toList) hi := by
  have hobject : ∀ mid, mid ≤ hi →
      (∀ b ∈ m.binding, mid ≤ b.object.span.start) → (m.binding = none → mid ≤ stop) →
      Apart mid obj.toList hi := by
    intro mid hmid hstart hend
    cases obj with
    | none => exact hmid
    | some e =>
      rcases hobj e rfl with ⟨b, hb, hspan⟩ | ⟨hno, hspan⟩
      · have hplaced := hm.binding b hb
        refine ⟨?_, ?_, ?_⟩
        · exact hspan ▸ hstart b hb
        · exact hspan ▸ Nat.le_of_lt hplaced.object
        · exact hspan ▸ (hsome b hb).2
      · rw [Option.toList_some, Apart, hspan]
        exact ⟨hend hno, Nat.le_refl _, (hnone hno).2⟩
  cases ann with
  | none =>
    refine hobject lo hle ?_ (fun hno => (hnone hno).1)
    intro b hb
    have hplaced := (hm.binding b hb).value
    have hlo := (hsome b hb).1
    omega
  | some e =>
    obtain ⟨b, hb, hname, hspan, hvalue⟩ := (hann e rfl).bounds hm
    have hlo := (hsome b hb).1
    have hplaced := hm.binding b hb
    refine ⟨by omega, hspan, hobject e.span.stop ?_ ?_ ?_⟩
    · have hstop := (hsome b hb).2
      have hlt := hplaced.object
      omega
    · intro b' hb'
      obtain rfl : b' = b := Option.mem_unique hb' hb
      exact hvalue
    · intro hno
      rw [hno] at hb
      cases hb

/-- No edit of a variable starts where its object ends. -/
theorem bindingEdits_start_lt {m : Outline} {stop : Nat} {ann obj : Option Edit} {b : Binding}
    (hm : m.Placed stop) (hb : b ∈ m.binding) (hann : ∀ e ∈ ann, AnnotationTarget m e.span)
    (hobj : ∀ e ∈ obj, ObjectTarget m stop e.span) :
    ∀ d ∈ ann.toList ++ obj.toList, d.span.start < b.object.span.stop := by
  have hobject := (hm.binding b hb).object
  intro d hd
  rcases List.mem_append.mp hd with hd | hd
  · obtain ⟨b', hb', -, hspan, hvalue⟩ := (hann d (Option.mem_toList.mp hd)).bounds hm
    obtain rfl : b' = b := Option.mem_unique hb' hb
    omega
  · rcases hobj d (Option.mem_toList.mp hd) with ⟨b', hb', hspan⟩ | ⟨hno, -⟩
    · obtain rfl : b' = b := Option.mem_unique hb' hb
      exact hspan ▸ hobject
    · rw [hno] at hb
      cases hb

/-- Edits of the three targets stand apart, the import first or after the other two. -/
theorem exists_apart {m : Outline} {stop : Nat} {imp ann obj : Option Edit} (hm : m.Placed stop)
    (himp : ∀ e ∈ imp, ImportTarget m e.span) (hann : ∀ e ∈ ann, AnnotationTarget m e.span)
    (hobj : ∀ e ∈ obj, ObjectTarget m stop e.span) :
    ∃ es, Apart 0 es stop ∧ (es = imp.toList ++ (ann.toList ++ obj.toList) ∨
      (es = ann.toList ++ obj.toList ++ imp.toList ∧
        ∀ e ∈ imp, ∀ d ∈ ann.toList ++ obj.toList, d.span.start < e.span.start)) := by
  have hwhole : ∀ lo, lo ≤ stop → (∀ b ∈ m.binding, lo ≤ b.nameStop) →
      Apart lo (ann.toList ++ obj.toList) stop := by
    intro lo hlo hname
    exact bindingEdits_apart hm hann hobj hlo
      (fun b hb => ⟨hname b hb, (hm.binding b hb).stop⟩) (fun _ => ⟨hlo, Nat.le_refl _⟩)
  cases imp with
  | none => exact ⟨_, hwhole 0 (Nat.zero_le _) (fun _ _ => Nat.zero_le _), .inl rfl⟩
  | some e =>
    obtain ⟨hspan, hstop, hapart⟩ := (himp e rfl).bounds hm
    by_cases hbefore : ∀ b ∈ m.binding, e.span.stop < b.nameStop
    · have hrest := hwhole e.span.stop hstop fun b hb => Nat.le_of_lt (hbefore b hb)
      exact ⟨e :: (ann.toList ++ obj.toList), ⟨Nat.zero_le _, hspan, hrest⟩, .inl rfl⟩
    · obtain ⟨b, hb, hafter⟩ : ∃ b ∈ m.binding, ¬ e.span.stop < b.nameStop := by
        simpa using hbefore
      have hle : b.object.span.stop ≤ e.span.start := (hapart b hb).resolve_left hafter
      have hfirst : Apart 0 (ann.toList ++ obj.toList) b.object.span.stop := by
        refine bindingEdits_apart hm hann hobj (Nat.zero_le _) ?_ ?_
        · intro b' hb'
          obtain rfl : b' = b := Option.mem_unique hb' hb
          exact ⟨Nat.zero_le _, Nat.le_refl _⟩
        · intro hno
          rw [hno] at hb
          cases hb
      have hlast : Apart b.object.span.stop [e] stop := ⟨hle, hspan, hstop⟩
      refine ⟨_, Edit.apart_append.mpr ⟨_, hfirst, hlast⟩, .inr ⟨rfl, ?_⟩⟩
      rintro _ ⟨⟩ d hd
      exact Nat.lt_of_lt_of_le (bindingEdits_start_lt hm hb hann hobj d hd) hle

/-- The import is written where it may be. -/
theorem importEdit_target {m : Outline} {stop : Nat} (hm : m.Placed stop) (u : Update) :
    ImportTarget m (importEdit m u).span := by
  have hstatement : ImportTarget m (importStatementEdit m u).span := by
    unfold importStatementEdit
    simp only
    split
    · next last hlast =>
      have hmem := List.mem_of_getLast? hlast
      exact .inl ⟨rfl, .inr ⟨last, hmem, (hm.imports last hmem).1.span, Nat.le_refl _⟩⟩
    · exact .inl ⟨rfl, .inl rfl⟩
  unfold importEdit
  split
  · next i hfind =>
    have hmem : i ∈ m.imports := List.mem_of_find?_eq_some hfind
    have hplaced := (hm.imports i hmem).1
    cases hnamed : i.named with
    | some named =>
      simp only
      split
      · next stop hlast => exact .inl ⟨rfl, .inr ⟨i, hmem, hplaced.last named hnamed stop hlast⟩⟩
      · next hlast =>
        exact .inr ⟨i, hmem, named, hnamed, hplaced.empty named hnamed hlast, rfl⟩
    | none =>
      cases hdefault : i.defaultStop with
      | some stop => exact .inl ⟨rfl, .inr ⟨i, hmem, hplaced.default stop hdefault⟩⟩
      | none => exact hstatement
  · exact hstatement

/-- The edits of a variable are one of its annotation and one of its object, or less. -/
theorem bindingEdits_targets (source : List Char) (m : Outline) (u : Update) (p : Plan) :
    ∃ ann obj : Option Edit, bindingEdits source m u p = ann.toList ++ obj.toList ∧
      (∀ e ∈ ann, AnnotationTarget m e.span) ∧
      ∀ e ∈ obj, ObjectTarget m source.length e.span := by
  unfold bindingEdits
  split
  · next b hb =>
    refine ⟨if p.retype then some (retypeEdit b u.type) else none,
      if p.resort || !p.missingStubs.isEmpty then
        some ⟨b.object.span, (rebuilt source b p.missingStubs).toList⟩ else none, ?_, ?_, ?_⟩
    · cases p.retype <;> cases (p.resort || !p.missingStubs.isEmpty) <;> rfl
    · intro e he
      obtain rfl := Option.some.inj (Option.ite_none_right_eq_some.mp he).2
      refine ⟨b, hb, ?_⟩
      unfold retypeEdit
      split
      · next span type hann => exact .inl ⟨_, hann, rfl⟩
      · next hann => exact .inr ⟨rfl, hann⟩
    · intro e he
      obtain rfl := Option.some.inj (Option.ite_none_right_eq_some.mp he).2
      exact .inl ⟨b, hb, rfl⟩
  · next hnone =>
    refine ⟨none, some _, rfl, by simp, ?_⟩
    intro e he
    cases he
    exact .inr ⟨hnone, rfl⟩

/-- A later import may be listed first: no other edit starts where it does. -/
theorem filter_append_comm {imp rest : List Edit}
    (h : ∀ e ∈ imp, ∀ d ∈ rest, d.span.start < e.span.start) (k : Nat) :
    (rest ++ imp).filter (fun e => e.span.start = k) =
      (imp ++ rest).filter (fun e => e.span.start = k) := by
  rw [List.filter_append, List.filter_append]
  cases hi : imp.filter (fun e => e.span.start = k) with
  | nil => simp
  | cons e es =>
    have he : e ∈ imp.filter (fun e => e.span.start = k) := by simp [hi]
    obtain ⟨hmem, hk⟩ := List.mem_filter.mp he
    have hrest : rest.filter (fun e => e.span.start = k) = [] := by
      rw [List.filter_eq_nil_iff]
      intro d hd
      have hlt := h e hmem d hd
      simp only [decide_eq_true_eq] at hk ⊢
      omega
    simp [hrest]

/-- A module that can be read is left as it is or its edits are made. -/
theorem merge_of_read [Parser] {text : String} {m : Outline} (hblank : Text.allBlank text = false)
    (hread : read text.toList = .ok m) (u : Update) :
    merge (some text) u = if (Plan.compute m u).isEmpty then .ok text else
      .ok (String.ofList (Edit.applyAll text.toList
        (edits text.toList m u (Plan.compute m u)))) := by
  simp only [merge, Option.getD_some, hblank, hread]
  rfl

/-- The edit of the imports, if one is due. -/
def importEdit? (m : Outline) (u : Update) (p : Plan) : Option Edit :=
  if p.missingImport then some (importEdit m u) else none

/-- The edits of a plan, by what they change. -/
theorem edits_targets {source : List Char} {m : Outline} (hm : m.Placed source.length) (u : Update)
    (p : Plan) :
    ∃ ann obj : Option Edit,
      edits source m u p = (importEdit? m u p).toList ++ (ann.toList ++ obj.toList) ∧
      (∀ e ∈ importEdit? m u p, ImportTarget m e.span) ∧ (∀ e ∈ ann, AnnotationTarget m e.span) ∧
      ∀ e ∈ obj, ObjectTarget m source.length e.span := by
  obtain ⟨ann, obj, hbinding, hann, hobj⟩ := bindingEdits_targets source m u p
  refine ⟨ann, obj, ?_, ?_, hann, hobj⟩
  · rw [edits, hbinding, importEdit?]
    cases p.missingImport <;> rfl
  · intro e he
    obtain rfl := Option.some.inj (Option.ite_none_right_eq_some.mp he).2
    exact importEdit_target hm u

/-- The edits of a plan, made one after the other, replace stretches that stand apart. -/
theorem applyAll_edits {source : List Char} {m : Outline} (hm : m.Placed source.length)
    (u : Update) (p : Plan) :
    ∃ (ann obj : Option Edit) (es : List Edit),
      Edit.applyAll source (edits source m u p) = replaced source 0 es ∧
      Apart 0 es source.length ∧
      (∀ e ∈ importEdit? m u p, ImportTarget m e.span) ∧ (∀ e ∈ ann, AnnotationTarget m e.span) ∧
      (∀ e ∈ obj, ObjectTarget m source.length e.span) ∧
      (es = (importEdit? m u p).toList ++ (ann.toList ++ obj.toList) ∨
        (es = ann.toList ++ obj.toList ++ (importEdit? m u p).toList ∧
          ∀ e ∈ importEdit? m u p, ∀ d ∈ ann.toList ++ obj.toList,
            d.span.start < e.span.start)) := by
  obtain ⟨ann, obj, hedits, himp, hann, hobj⟩ := edits_targets hm u p
  obtain ⟨es, hapart, horder⟩ := exists_apart hm himp hann hobj
  refine ⟨ann, obj, es, ?_, hapart, himp, hann, hobj, horder⟩
  rw [hedits, Edit.applyAll_eq_replaced hapart]
  intro k
  rcases horder with rfl | ⟨rfl, hlt⟩
  · rfl
  · refine filter_append_comm ?_ k
    intro e he d hd
    exact hlt e (Option.mem_toList.mp he) d hd

/-- Where nothing is left to do there is nothing to edit. -/
theorem edits_eq_nil {source : List Char} {m : Outline} {u : Update}
    (h : (Plan.compute m u).isEmpty = true) : edits source m u (Plan.compute m u) = [] := by
  have hdue : ∀ p : Plan, p.isEmpty = true → p.missingImport = false ∧ p.missingStubs = [] ∧
      p.resort = false ∧ p.retype = false ∧ p.synthesize = false := by
    intro p hp
    simpa [Plan.isEmpty, and_assoc] using hp
  obtain ⟨himport, hstubs, hresort, hretype, hsynthesize⟩ := hdue _ h
  rw [edits, bindingEdits, himport, hstubs, hresort, hretype]
  cases hb : m.binding with
  | none =>
    rw [Plan.compute, hb] at hsynthesize
    cases hsynthesize
  | some b => rfl

/-- A module that can be read gets its edits. -/
theorem merge_eq_applyAll [Parser] {text : String} {m : Outline}
    (hblank : Text.allBlank text = false) (hread : read text.toList = .ok m) (u : Update) :
    merge (some text) u = .ok (String.ofList
      (Edit.applyAll text.toList (edits text.toList m u (Plan.compute m u)))) := by
  rw [merge_of_read hblank hread]
  split
  · next hempty =>
    rw [edits_eq_nil hempty]
    simp [Edit.applyAll, Edit.backToFront]
  · rfl

/-- Bringing a module that can be read up to date replaces at most three stretches of its text at
once: in the imports, the annotation and the object of the variable. The stretches stand apart, and
of two that start at one offset the import comes first. -/
theorem merge_eq_replaced [Parser] {text : String} {m : Outline}
    (hplaces : Parser.Places text.toList) (hblank : Text.allBlank text = false)
    (hread : read text.toList = .ok m) (u : Update) :
    ∃ (imp ann obj : Option Edit) (es : List Edit),
      merge (some text) u = .ok (String.ofList (replaced text.toList 0 es)) ∧
      Apart 0 es text.toList.length ∧
      (∀ e ∈ imp, ImportTarget m e.span) ∧ (∀ e ∈ ann, AnnotationTarget m e.span) ∧
      (∀ e ∈ obj, ObjectTarget m text.toList.length e.span) ∧
      (es = imp.toList ++ (ann.toList ++ obj.toList) ∨
        (es = ann.toList ++ obj.toList ++ imp.toList ∧
          ∀ e ∈ imp, ∀ d ∈ ann.toList ++ obj.toList, d.span.start < e.span.start)) := by
  have hplaced := read_placed hplaces hread
  obtain ⟨ann, obj, es, happlied, hapart, himp, hann, hobj, horder⟩ :=
    applyAll_edits hplaced u (Plan.compute m u)
  refine ⟨importEdit? m u (Plan.compute m u), ann, obj, es, ?_, hapart, himp, hann, hobj, horder⟩
  rw [merge_eq_applyAll hblank hread, happlied]

/-- An import at the end of a text, after which both the import and the variable are written. -/
theorem merge_eq_replaced_at_end :
    let m : Outline := ⟨true, [⟨none, none, "p", ⟨0, 10⟩⟩], none⟩
    Parser.Places "import 'p'".toList ∧ Text.allBlank "import 'p'" = false ∧
      read "import 'p'".toList = .ok m ∧
      ∃ (imp ann obj : Option Edit) (es : List Edit),
        merge (some "import 'p'") ⟨"q", default, [], "T"⟩ =
          .ok (String.ofList (replaced "import 'p'".toList 0 es)) ∧
        Apart 0 es "import 'p'".toList.length ∧
        (∀ e ∈ imp, ImportTarget m e.span) ∧ (∀ e ∈ ann, AnnotationTarget m e.span) ∧
        (∀ e ∈ obj, ObjectTarget m "import 'p'".toList.length e.span) ∧
        (es = imp.toList ++ (ann.toList ++ obj.toList) ∨
          (es = ann.toList ++ obj.toList ++ imp.toList ∧
            ∀ e ∈ imp, ∀ d ∈ ann.toList ++ obj.toList, d.span.start < e.span.start)) := by
  have hplaces : Parser.Places "import 'p'".toList := by decide +kernel
  have hblank : Text.allBlank "import 'p'" = false := by decide +kernel
  have hread : read "import 'p'".toList = .ok ⟨true, [⟨none, none, "p", ⟨0, 10⟩⟩], none⟩ := by
    decide +kernel
  exact ⟨hplaces, hblank, hread, merge_eq_replaced hplaces hblank hread _⟩

end TypeLoom.ResolverModule
