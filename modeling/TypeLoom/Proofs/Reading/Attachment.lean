import TypeLoom.ResolverModule.Reading
import TypeLoom.Proofs.Reading.Trees

/-!
# Comments and the elements they belong to

While the parts of an object literal are gone through, each one either starts a new stretch or makes
the last one longer. So the stretches that are recorded follow one another, and each part lies in
exactly one of them, whatever the rows of the parts are: `objectLiteral_ranges`. There is one
property for each element: `objectLiteral_marks`.
-/

namespace TypeLoom.ResolverModule

/-- The stretches of a property: its own with the comments before it, and that of its line. -/
def Property.ranges (p : Property) : List Span := p.span :: p.lineComment.toList

/-- Name and end of a property. -/
def Property.mark (p : Property) : String × Nat := (p.name, p.span.stop)

/-- All stretches that are recorded of an object literal. -/
def ObjectLiteral.ranges (o : ObjectLiteral) : List Span :=
  o.properties.flatMap Property.ranges ++ o.trailing.toList

namespace Reading

def Part.span : Part → Span
  | .comment s _ => s
  | .element s _ _ => s

/-- The stretches recorded so far. -/
def Attached.ranges (s : Attached) : List Span :=
  s.properties.flatMap Property.ranges ++ s.pending.toList

/-- Parts in stretches: a part starts a stretch or makes the last one longer. -/
inductive Gathers : List Part → List Span → Prop where
  | none : Gathers [] []
  | start {ps ss} (p : Part) (h : Gathers ps ss) : Gathers (ps ++ [p]) (ss ++ [p.span])
  | longer {ps ss s} (p : Part) (h : Gathers ps (ss ++ [s])) :
      Gathers (ps ++ [p]) (ss ++ [⟨s.start, p.span.stop⟩])

/-- Whether one stretch lies in another. -/
def encloses (outer inner : Span) : Bool := outer.start ≤ inner.start && inner.stop ≤ outer.stop

theorem encloses_iff {a b : Span} : encloses a b = true ↔ a.start ≤ b.start ∧ b.stop ≤ a.stop := by
  simp [encloses]

/-- Stretches that end before a part ends do not enclose it. -/
theorem countP_encloses_eq_zero {ss : List Span} {s : Span} {lo hi : Nat} (h : Span.Laid lo ss hi)
    (hs : hi < s.stop) : ss.countP (encloses · s) = 0 := by
  rw [List.countP_eq_zero]
  intro a ha hin
  have hbounds := h.of_mem ha
  have hin' := encloses_iff.mp hin
  omega

/-- The stretches follow one another up to the end of the last part, and each part lies in exactly
one of them. -/
structure Covers (ps : List Part) (ss : List Span) (lo mid : Nat) : Prop where
  laid : Span.Laid lo ss mid
  last : ∀ s ∈ ss.getLast?, s.stop = mid
  ends : ∀ p ∈ ps, p.span.stop ≤ mid
  once : ∀ p ∈ ps, ss.countP (encloses · p.span) = 1

section

variable {ps : List Part} {ss : List Span} {s : Span} {lo mid : Nat}

theorem Covers.ends_concat (h : Covers ps ss lo mid) {p : Part} (hp : mid ≤ p.span.start)
    (hlt : p.span.start < p.span.stop) : ∀ q ∈ ps ++ [p], q.span.stop ≤ p.span.stop := by
  intro q hq
  rcases List.mem_append.mp hq with hq | hq
  · have hend := h.ends q hq
    omega
  · exact Nat.le_of_eq (List.mem_singleton.mp hq ▸ rfl)

/-- Stretches that cover parts cover one part more if it starts a stretch of its own. -/
theorem Covers.start (h : Covers ps ss lo mid) (hps : ∀ q ∈ ps, q.span.start < q.span.stop)
    {p : Part} (hp : mid ≤ p.span.start) (hlt : p.span.start < p.span.stop) :
    Covers (ps ++ [p]) (ss ++ [p.span]) lo p.span.stop where
  laid := Span.laid_append.mpr ⟨mid, h.laid, hp, hlt, Nat.le_refl _⟩
  last := by simp
  ends := h.ends_concat hp hlt
  once q hq := by
    rw [List.countP_append, List.countP_singleton]
    rcases List.mem_append.mp hq with hq | hq
    · have hend := h.ends q hq
      have hqlt := hps q hq
      have hout : encloses p.span q.span = false := by
        rw [Bool.eq_false_iff]
        intro hin
        have hin' := encloses_iff.mp hin
        omega
      rw [h.once q hq, hout]
      rfl
    · obtain rfl := List.mem_singleton.mp hq
      have hin : encloses q.span q.span = true := encloses_iff.mpr ⟨Nat.le_refl _, Nat.le_refl _⟩
      rw [countP_encloses_eq_zero h.laid (by omega), hin]
      rfl

/-- They also do if it makes the last stretch longer. -/
theorem Covers.longer (h : Covers ps (ss ++ [s]) lo mid) {p : Part} (hp : mid ≤ p.span.start)
    (hlt : p.span.start < p.span.stop) :
    Covers (ps ++ [p]) (ss ++ [⟨s.start, p.span.stop⟩]) lo p.span.stop := by
  have hs : s.stop = mid := h.last s (by simp)
  obtain ⟨m, hinit, hle, hslt, -⟩ := Span.laid_append.mp h.laid
  constructor
  case laid =>
    refine Span.laid_append.mpr ⟨m, hinit, hle, ?_, Nat.le_refl _⟩
    show s.start < p.span.stop
    omega
  case last => simp
  case ends => exact h.ends_concat hp hlt
  case once =>
    intro q hq
    rw [List.countP_append, List.countP_singleton]
    rcases List.mem_append.mp hq with hq | hq
    · have hend := h.ends q hq
      have honce := h.once q hq
      rw [List.countP_append, List.countP_singleton] at honce
      -- An earlier part ends by the old end, so the longer stretch holds it if the old one did.
      have hsame : encloses ⟨s.start, p.span.stop⟩ q.span = encloses s q.span := by
        rw [Bool.eq_iff_iff, encloses_iff, encloses_iff]
        simp only
        omega
      rw [hsame]
      exact honce
    · obtain rfl := List.mem_singleton.mp hq
      have hin : encloses ⟨s.start, q.span.stop⟩ q.span = true := by
        rw [encloses_iff]
        simp only
        omega
      rw [countP_encloses_eq_zero hinit (by omega), hin]
      rfl

end

theorem Gathers.covers {ps : List Part} {ss : List Span} (h : Gathers ps ss) {lo hi : Nat}
    (hl : Span.Laid lo (ps.map Part.span) hi) : ∃ mid, mid ≤ hi ∧ Covers ps ss lo mid := by
  induction h generalizing hi with
  | none => exact ⟨lo, hl, Nat.le_refl lo, nofun, nofun, nofun⟩
  | @start ps _ p _ ih =>
    rw [List.map_append] at hl
    obtain ⟨m, hps, hp, hlt, hstop⟩ := Span.laid_append.mp hl
    obtain ⟨mid, hmid, hcovers⟩ := ih hps
    have hparts : ∀ q ∈ ps, q.span.start < q.span.stop := fun q hq =>
      (hps.of_mem (List.mem_map_of_mem hq)).2.1
    exact ⟨p.span.stop, hstop, hcovers.start hparts (Nat.le_trans hmid hp) hlt⟩
  | longer p _ ih =>
    rw [List.map_append] at hl
    obtain ⟨m, hps, hp, hlt, hstop⟩ := Span.laid_append.mp hl
    obtain ⟨mid, hmid, hcovers⟩ := ih hps
    exact ⟨p.span.stop, hstop, hcovers.longer (Nat.le_trans hmid hp) hlt⟩

/-- A row was recorded only with a property. -/
def Attached.Ready (s : Attached) : Prop := s.lastRow.isSome = true → s.properties ≠ []

theorem addLineComment_concat (c : Span) (ps : List Property) (p : Property) :
    addLineComment c (ps ++ [p]) =
      ps ++ [{ p with lineComment := some (extend p.lineComment c) }] := by
  simp [addLineComment]

theorem attach_ready {s : Attached} (h : s.Ready) (p : Part) : (attach s p).Ready := by
  unfold attach
  split
  · split
    · intro hrow
      rcases List.eq_nil_or_concat' s.properties with hnil | ⟨ps, q, hq⟩
      · exact absurd hnil (h hrow)
      · rw [hq, addLineComment_concat]
        simp
    · exact h
  · intro _
    simp

/-- One part more starts a stretch or makes the last one longer. -/
theorem attach_gathers {s : Attached} {ps : List Part} (h : s.Ready) (hg : Gathers ps s.ranges)
    (p : Part) : Gathers (ps ++ [p]) (attach s p).ranges := by
  obtain ⟨properties, lastRow, pending⟩ := s
  cases p with
  | comment c row =>
    simp only [attach]
    split
    · next hline =>
      simp only [Bool.and_eq_true, Option.isNone_iff_eq_none, beq_iff_eq] at hline
      obtain ⟨rfl, rfl⟩ := hline
      rcases List.eq_nil_or_concat' properties with rfl | ⟨qs, q, rfl⟩
      · exact absurd rfl (h rfl)
      · obtain ⟨name, span, lineComment⟩ := q
        simp only [Attached.ranges, addLineComment_concat, List.flatMap_append, List.flatMap_cons,
          List.flatMap_nil, List.append_nil, Property.ranges, Option.toList_none,
          Option.toList_some] at hg ⊢
        cases lineComment with
        | none =>
          have hs := hg.start (.comment c row)
          simpa [extend, Part.span] using hs
        | some l =>
          rw [Option.toList_some, List.append_cons] at hg
          have hs := hg.longer (.comment c row)
          simpa [extend, Part.span] using hs
    · simp only [Attached.ranges, Option.toList_some] at hg ⊢
      cases pending with
      | none =>
        rw [Option.toList_none, List.append_nil] at hg
        exact hg.start (.comment c row)
      | some l => exact hg.longer (.comment c row)
  | element e endRow name =>
    simp only [attach, Attached.ranges, List.flatMap_append, List.flatMap_cons, List.flatMap_nil,
      List.append_nil, Property.ranges, Option.toList_none] at hg ⊢
    cases pending with
    | none =>
      rw [Option.toList_none, List.append_nil] at hg
      exact hg.start (.element e endRow name)
    | some l => exact hg.longer (.element e endRow name)

theorem foldl_attach_gathers {s : Attached} {ps qs : List Part} (h : s.Ready)
    (hg : Gathers ps s.ranges) : Gathers (ps ++ qs) (qs.foldl attach s).ranges := by
  induction qs generalizing s ps with
  | nil => simpa using hg
  | cons q qs ih =>
    have hq := ih (attach_ready h q) (attach_gathers h hg q)
    simpa using hq

/-- The stretches recorded of a literal stand inside it, one after the other, and every part of it
lies in exactly one of them. -/
theorem objectOfParts_ranges (source : List Char) {span : Span} {parts : List Part}
    (h : Span.Laid span.start (parts.map Part.span) span.stop) :
    Span.Laid span.start (objectOfParts source span parts).ranges span.stop ∧
      ∀ p ∈ parts, (objectOfParts source span parts).ranges.countP (encloses · p.span) = 1 := by
  have hg : Gathers parts (objectOfParts source span parts).ranges :=
    foldl_attach_gathers (s := ⟨[], none, none⟩) (fun h => by cases h) .none
  obtain ⟨mid, hmid, hcovers⟩ := hg.covers h
  exact ⟨hcovers.laid.mono (Nat.le_refl _) hmid, hcovers.once⟩

/-! ### Elements -/

/-- Name and end of a part that is an element. -/
def Part.mark? : Part → Option (String × Nat)
  | .comment _ _ => none
  | .element s _ name => some (name, s.stop)

theorem addLineComment_marks (c : Span) (ps : List Property) :
    (addLineComment c ps).map Property.mark = ps.map Property.mark := by
  rcases List.eq_nil_or_concat' ps with rfl | ⟨qs, q, rfl⟩
  · rfl
  · simp [addLineComment_concat, Property.mark]

theorem foldl_attach_marks (s : Attached) (parts : List Part) :
    (parts.foldl attach s).properties.map Property.mark =
      s.properties.map Property.mark ++ parts.filterMap Part.mark? := by
  induction parts generalizing s with
  | nil => simp
  | cons p parts ih =>
    rw [List.foldl_cons, ih]
    cases p with
    | comment c row =>
      rw [List.filterMap_cons_none rfl]
      simp only [attach]
      split
      · rw [addLineComment_marks]
      · rfl
    | element e endRow name => simp [attach, Part.mark?, Property.mark, extend]

theorem objectOfParts_marks (source : List Char) (span : Span) (parts : List Part) :
    (objectOfParts source span parts).properties.map Property.mark =
      parts.filterMap Part.mark? := by
  have h := foldl_attach_marks ⟨[], none, none⟩ parts
  simpa [objectOfParts] using h

end Reading

open Reading

/-- The elements of an object literal. -/
def Node.elements (object : Node) : List Node :=
  object.namedChildren.filter fun c => decide (c.kind ≠ "comment")

/-- The node that an element has its name from. -/
def Node.key? (element : Node) : Option Node :=
  match element.kind with
  | "pair" => element.child? "key"
  | "method_definition" => element.child? "name"
  | "shorthand_property_identifier" => some element
  | _ => none

/-- What a key spells: between its quotes, if it is a string. -/
def Node.spelled (source : List Char) (key : Node) : String :=
  if key.kind = "string" then unquote (key.text source) else key.text source

/-- The name of an element; the empty one, if it has no key. -/
def Node.name (source : List Char) (element : Node) : String :=
  element.key?.elim "" (·.spelled source)

/-- Shorthands are no strings, and other elements are read by their keys. -/
theorem elementName_eq (source : List Char) (element : Node) :
    elementName source element = element.name source := by
  unfold elementName Node.name Node.key?
  split
  · next h => simp only [h]; rfl
  · split
    · next h => simp only [h]; rfl
    · split
      · next h =>
        simp only [h, Option.elim_some, Node.spelled]
        rw [if_neg (by decide)]
      · next hpair hmethod hshort => split <;> first | contradiction | rfl

/-- The stretches recorded of a literal whose children follow one another stand inside it, one after
the other, and every element and every comment of it lies in exactly one of them. -/
theorem objectLiteral_ranges (source : List Char) {object : Node}
    (h : Span.Laid object.span.start (object.children.map Node.span) object.span.stop) :
    Span.Laid object.span.start (objectLiteral source object).ranges object.span.stop ∧
      ∀ c ∈ object.namedChildren,
        (objectLiteral source object).ranges.countP (encloses · c.span) = 1 := by
  have hspan : ∀ c : Node, (part source c).span = c.span := by
    intro c
    unfold part
    split <;> rfl
  have hparts : Span.Laid object.span.start
      ((object.namedChildren.map (part source)).map Part.span) object.span.stop := by
    rw [List.map_map, show Part.span ∘ part source = Node.span from funext hspan]
    exact h.sublist (object.namedChildren_sublist.map Node.span)
  obtain ⟨hlaid, honce⟩ := objectOfParts_ranges source hparts
  refine ⟨hlaid, fun c hc => ?_⟩
  have hpart := honce _ (List.mem_map_of_mem hc)
  rwa [hspan] at hpart

/-- There is one property for each element, in their order, that ends where the element ends. -/
theorem objectLiteral_marks (source : List Char) (object : Node) :
    (objectLiteral source object).properties.map Property.mark =
      object.elements.map fun c => (c.name source, c.span.stop) := by
  rw [objectLiteral, objectOfParts_marks, Node.elements, List.filterMap_map]
  generalize object.namedChildren = cs
  induction cs with
  | nil => rfl
  | cons c cs ih =>
    by_cases hc : c.kind = "comment"
    · rw [List.filterMap_cons_none (by simp [part, hc, Part.mark?]),
        List.filter_cons_of_neg (by simp [hc]), ih]
    · have hmark : (Part.mark? ∘ part source) c = some (c.name source, c.span.stop) := by
        simp [part, hc, Part.mark?, elementName_eq]
      rw [List.filterMap_cons_some hmark, List.filter_cons_of_pos (by simp [hc]), List.map_cons,
        ih]

end TypeLoom.ResolverModule
