import TypeLoom.ResolverModule.Merge
import TypeLoom.TypeScript.Syntax
import TypeLoom.Proofs.Reading.Attachment
import TypeLoom.Proofs.Sorting

/-!
# Object literals written anew

The entries of a literal that is written anew are the elements it had, each with its comments, and
the stubs that were missing. They are sorted by name, those with one name in the order they had.
The lines of the new literal are told here from what is recorded of the old one: `Binding.lines`.
-/

namespace TypeLoom.ResolverModule

open Reading

theorem sortEntries_perm (es : List Entry) : (sortEntries es).Perm es := List.mergeSort_perm es _

theorem name_le_trans (a b c : Entry) (hab : decide (a.name ≤ b.name) = true)
    (hbc : decide (b.name ≤ c.name) = true) : decide (a.name ≤ c.name) = true := by
  simp only [decide_eq_true_eq] at hab hbc ⊢
  exact String.le_trans hab hbc

theorem name_le_total (a b : Entry) :
    (decide (a.name ≤ b.name) || decide (b.name ≤ a.name)) = true := by
  simp only [Bool.or_eq_true, decide_eq_true_eq]
  exact String.le_total a.name b.name

theorem sortEntries_sorted (es : List Entry) :
    ((sortEntries es).map (·.name)).Pairwise (· ≤ ·) := by
  rw [List.pairwise_map]
  refine (List.pairwise_mergeSort name_le_trans name_le_total es).imp ?_
  intro a b h
  simpa using h

/-- Entries with one name keep their order. -/
theorem sortEntries_filter (es : List Entry) (name : String) :
    (sortEntries es).filter (fun e => e.name = name) = es.filter (fun e => e.name = name) := by
  apply Sorting.mergeSort_filter name_le_trans name_le_total
  intro a b ha hb
  simp only [decide_eq_true_eq] at ha hb ⊢
  have hname : a.name = b.name := ha.trans hb.symm
  exact hname ▸ String.le_refl a.name

/-- Entries of different names are sorted when their names are. -/
theorem sortEntries_eq_of_perm {es fs : List Entry} (h : es.Perm fs)
    (hsorted : (fs.map (·.name)).Pairwise (· < ·)) : sortEntries es = fs := by
  have hnodup : (fs.map (·.name)).Nodup := hsorted.imp String.ne_of_lt
  have hes : (sortEntries es).Pairwise fun a b => a.name ≤ b.name :=
    List.pairwise_map.mp (sortEntries_sorted es)
  have hfs : fs.Pairwise fun a b => a.name ≤ b.name :=
    List.pairwise_map.mp (hsorted.imp fun h => String.not_lt.mp (String.lt_asymm h))
  refine List.Perm.eq_of_pairwise ?_ hes hfs ((sortEntries_perm es).trans h)
  intro a b ha hb hab hba
  have hmem : a ∈ fs := h.mem_iff.mp ((sortEntries_perm es).mem_iff.mp ha)
  exact List.inj_on_of_nodup_map hnodup hmem hb (String.le_antisymm hab hba)

namespace Plan

/-- Names are in order if no neighbours are out of order. -/
theorem isUnsorted_eq_false_iff (names : List String) :
    isUnsorted names = false ↔ names.Pairwise (· ≤ ·) := by
  fun_induction isUnsorted names with
  | case1 a b rest ih =>
    rw [Bool.or_eq_false_iff, ih, decide_eq_false_iff_not, String.not_lt]
    constructor
    · rintro ⟨hab, hrest⟩
      refine List.Pairwise.cons ?_ hrest
      intro c hc
      rcases List.mem_cons.mp hc with rfl | hc
      · exact hab
      · exact String.le_trans hab (List.rel_of_pairwise_cons hrest hc)
    · intro h
      exact ⟨List.rel_of_pairwise_cons h List.mem_cons_self, h.of_cons⟩
  | case2 names hshort =>
    match names, hshort with
    | [], _ => simp
    | [a], _ => simp
    | a :: b :: rest, hshort => exact absurd rfl (hshort a b rest)

theorem mem_of_mem_unique {taken : List String} {stubs : List Stub} {s : Stub}
    (h : s ∈ unique taken stubs) : s ∈ stubs := by
  induction stubs generalizing taken with
  | nil => exact h
  | cons t stubs ih =>
    simp only [unique] at h
    split at h
    · exact List.mem_cons_of_mem t (ih h)
    · rcases List.mem_cons.mp h with rfl | h
      · exact List.mem_cons_self
      · exact List.mem_cons_of_mem t (ih h)

/-- Stubs are added only for names that are not taken. -/
theorem name_notMem_of_mem_unique {taken : List String} {stubs : List Stub} {s : Stub}
    (h : s ∈ unique taken stubs) : s.name ∉ taken := by
  induction stubs generalizing taken with
  | nil => cases h
  | cons t stubs ih =>
    simp only [unique] at h
    split at h
    · exact ih h
    · next hfree =>
      rcases List.mem_cons.mp h with rfl | h
      · simpa using hfree
      · exact fun hmem => ih h (List.mem_cons_of_mem _ hmem)

/-- Each name that is required is taken, or there is a stub for it. -/
theorem mem_or_mem_unique {taken : List String} {stubs : List Stub} {s : Stub} (h : s ∈ stubs) :
    s.name ∈ taken ∨ s.name ∈ (unique taken stubs).map (·.name) := by
  induction stubs generalizing taken with
  | nil => cases h
  | cons t stubs ih =>
    simp only [unique]
    split
    · next htaken =>
      rcases List.mem_cons.mp h with rfl | h
      · exact .inl (by simpa using htaken)
      · exact ih h
    · rw [List.map_cons, List.mem_cons]
      rcases List.mem_cons.mp h with rfl | h
      · exact .inr (.inl rfl)
      · have hrest : s.name ∈ t.name :: taken ∨ _ := ih h
        rcases hrest with hmem | hmem
        · rcases List.mem_cons.mp hmem with heq | hmem
          · exact .inr (.inl heq)
          · exact .inl hmem
        · exact .inr (.inr hmem)

/-- No two stubs are added for one name. -/
theorem nodup_unique (taken : List String) (stubs : List Stub) :
    ((unique taken stubs).map (·.name)).Nodup := by
  induction stubs generalizing taken with
  | nil => exact List.nodup_nil
  | cons t stubs ih =>
    simp only [unique]
    split
    · exact ih taken
    · rw [List.map_cons, List.nodup_cons]
      refine ⟨fun hmem => ?_, ih _⟩
      obtain ⟨s, hs, hname⟩ := List.mem_map.mp hmem
      exact name_notMem_of_mem_unique hs (hname ▸ List.mem_cons_self)

/-- No stub is added if all names are taken. -/
theorem unique_eq_nil_iff {taken : List String} {stubs : List Stub} :
    unique taken stubs = [] ↔ ∀ s ∈ stubs, s.name ∈ taken := by
  constructor
  · intro h s hs
    refine (mem_or_mem_unique hs).resolve_right ?_
    rw [h]
    nofun
  · intro h
    rw [List.eq_nil_iff_forall_not_mem]
    exact fun s hs => name_notMem_of_mem_unique hs (h s (mem_of_mem_unique hs))

end Plan

/-! ### Lines -/

/-- An entry of a literal: the name that it is sorted by, and its text up to the end of its line. -/
structure Line where
  name : String
  text : String
  deriving DecidableEq, Inhabited, Repr

/-- The line of an element that was there: its text with the comments before it, and after a comma
the comment of its line. -/
def keptLine (source : List Char) (p : Property) : Line where
  name := p.name
  text := String.ofList (p.span.slice source) ++ "," ++
    p.lineComment.elim "" fun c => " " ++ String.ofList (c.slice source)

/-- The line of a stub. -/
def addedLine (indent : String) (s : Stub) : Line where
  name := s.name
  text := Declaration.key s.name ++ ": (_context, _" ++ parentParameter s.parent ++
    ", _args) => \x7b\n" ++ indent ++ "    " ++ "throw new Error('Not implemented yet!');\n" ++
    indent ++ "\x7d" ++ ","

/-- The blanks before a line: those before the first element, if it starts its line. -/
def Binding.lineIndent (b : Binding) : String := b.object.indent.getD (b.indent ++ "    ")

/-- The lines of a literal with some stubs added, before they are sorted. -/
def Binding.lines (source : List Char) (b : Binding) (missing : List Stub) : List Line :=
  b.object.properties.map (keptLine source) ++ missing.map (addedLine b.lineIndent)

/-- The text of a literal with given lines, and then the comments after the last element. -/
def Binding.textOf (source : List Char) (b : Binding) (lines : List Line) : String :=
  "\x7b\n" ++ String.join (lines.map fun l => b.lineIndent ++ l.text ++ "\n") ++
    (b.object.trailing.elim "" fun t => b.lineIndent ++ String.ofList (t.slice source) ++ "\n") ++
    b.indent ++ "\x7d"

def Entry.line (e : Entry) : Line :=
  ⟨e.name, e.text ++ "," ++ e.lineComment.elim "" fun c => " " ++ c⟩

/-- All entries of a literal that is written anew. -/
def Binding.entries (source : List Char) (b : Binding) (missing : List Stub) : List Entry :=
  existingEntries source b.object ++ missing.map (stubEntry b.lineIndent)

theorem line_stubEntry (indent : String) (s : Stub) :
    (stubEntry indent s).line = addedLine indent s := by
  simp only [Entry.line, stubEntry, stubText, addedLine, indentUnit, Option.elim_none,
    String.append_empty]

theorem map_line_entries (source : List Char) (b : Binding) (missing : List Stub) :
    (b.entries source missing).map Entry.line = b.lines source missing := by
  have hkept : (existingEntries source b.object).map Entry.line =
      b.object.properties.map (keptLine source) := by
    rw [existingEntries, List.map_map]
    refine List.map_congr_left fun p _ => ?_
    simp only [Function.comp_apply, Entry.line, keptLine, sliceText]
    cases p.lineComment <;> rfl
  have hadded : (missing.map (stubEntry b.lineIndent)).map Entry.line =
      missing.map (addedLine b.lineIndent) := by
    rw [List.map_map]
    exact List.map_congr_left fun s _ => line_stubEntry b.lineIndent s
  rw [Binding.entries, Binding.lines, List.map_append, hkept, hadded]

/-- What is written are the lines of the entries in their order. -/
theorem rebuilt_eq (source : List Char) (b : Binding) (missing : List Stub) :
    rebuilt source b missing =
      b.textOf source ((sortEntries (b.entries source missing)).map Entry.line) := by
  have hline : ∀ e : Entry, entryText b.lineIndent e = b.lineIndent ++ e.line.text ++ "\n" := by
    intro e
    simp only [entryText, Entry.line, String.append_assoc]
  have htrailing : (b.object.trailing.map (sliceText source)).elim "" (fun c =>
      b.lineIndent ++ c ++ "\n") =
      b.object.trailing.elim "" fun t => b.lineIndent ++ sliceText source t ++ "\n" := by
    cases b.object.trailing <;> rfl
  have hlines : (sortEntries (b.entries source missing)).map (entryText b.lineIndent) =
      ((sortEntries (b.entries source missing)).map Entry.line).map
        fun l => b.lineIndent ++ l.text ++ "\n" := by
    rw [List.map_map]
    exact List.map_congr_left fun e _ => hline e
  have hrebuilt : rebuilt source b missing = objectText b.lineIndent b.indent
      (sortEntries (b.entries source missing)) (b.object.trailing.map (sliceText source)) := by
    simp only [rebuilt, Binding.entries, Binding.lineIndent, indentUnit]
  rw [hrebuilt, objectText, Binding.textOf, hlines, htrailing]
  simp only [sliceText]

/-- What a literal that is written anew has to do with the one that it replaces. -/
structure Rebuilds (source : List Char) (object : Node) (b : Binding) (missing : List Stub) :
    Prop where
  /-- What is recorded of the literal stands in it, one stretch after the other. -/
  laid : Span.Laid object.span.start b.object.ranges object.span.stop
  /-- Each element and each comment lies in exactly one of the stretches. -/
  once : ∀ c ∈ object.namedChildren, b.object.ranges.countP (encloses · c.span) = 1
  /-- There is one property for each element, in their order. -/
  properties : b.object.properties.map (fun p => (p.name, p.span.stop)) =
    object.elements.map fun c => (c.name source, c.span.stop)
  /-- The lines that are written are those of the properties and of the missing stubs, each once,
  sorted by name, and those of one name in the order they had. -/
  written : ∃ lines : List Line, rebuilt source b missing = b.textOf source lines ∧
    lines.Perm (b.lines source missing) ∧
    (∀ name, lines.filter (fun l => l.name = name) =
      (b.lines source missing).filter fun l => l.name = name) ∧
    (lines.map (·.name)).Pairwise (· ≤ ·) ∧ Plan.isUnsorted (lines.map (·.name)) = false

/-- Writing a literal anew loses and repeats nothing. What is recorded of it stands in it one after
the other and holds each of its parts once; the text has one line for each element, as it stood, and
one for each missing stub, sorted by name, and then the comments after the last element. -/
theorem rebuilt_keeps {source : List Char} {object : Node} {b : Binding}
    (hlaid : Span.Laid object.span.start (object.children.map Node.span) object.span.stop)
    (hb : b.object = objectLiteral source object) (missing : List Stub) :
    Rebuilds source object b missing := by
  have hranges := objectLiteral_ranges source hlaid
  have hsorted : ((sortEntries (b.entries source missing)).map Entry.line |>.map (·.name)).Pairwise
      (· ≤ ·) := by
    rw [List.map_map]
    exact sortEntries_sorted (b.entries source missing)
  refine ⟨hb ▸ hranges.1, hb ▸ hranges.2, hb ▸ objectLiteral_marks source object, _,
    rebuilt_eq source b missing, ?_, fun name => ?_, hsorted,
    (Plan.isUnsorted_eq_false_iff _).mpr hsorted⟩
  · rw [← map_line_entries]
    exact (sortEntries_perm _).map Entry.line
  · rw [← map_line_entries, List.filter_map, List.filter_map]
    exact congrArg _ (sortEntries_filter (b.entries source missing) name)

/-- The literal of the first variable of a text. -/
def firstLiteral? [Parser] (source : List Char) : Option Node :=
  ((Parser.root source).namedChildren.head?.bind (·.namedChildren.head?)).bind (·.child? "value")

/-- Elements out of order with comments before, between and after them. -/
theorem rebuilt_keeps_comments :
    let source := "let resolvers = \x7b b, // x\n /* y */ a\n/* z */ \x7d".toList
    ∃ object, firstLiteral? source = some object ∧
      Span.Laid object.span.start (object.children.map Node.span) object.span.stop ∧
      let b : Binding := ⟨"", 13, objectLiteral source object, none⟩
      Rebuilds source object b [⟨"Q", "c"⟩] ∧
      rebuilt source b [⟨"Q", "c"⟩] =
        "\x7b\n    /* y */ a,\n    b, // x\n    c: (_context, _q, _args) => \x7b\n" ++
          "        throw new Error('Not implemented yet!');\n    \x7d,\n    /* z */\n\x7d" := by
  intro source
  have hlaid : ∀ object ∈ firstLiteral? source,
      Span.Laid object.span.start (object.children.map Node.span) object.span.stop := by
    decide +kernel
  have hliteral : (firstLiteral? source).map (objectLiteral source) =
      some ⟨[⟨"b", ⟨18, 19⟩, some ⟨21, 25⟩⟩, ⟨"a", ⟨27, 36⟩, none⟩], none, ⟨16, 46⟩,
        some ⟨37, 44⟩⟩ := by
    decide +kernel
  have hsorted : sortEntries [⟨"b", "b", some "// x"⟩, ⟨"a", "/* y */ a", none⟩,
      stubEntry "    " ⟨"Q", "c"⟩] = [⟨"a", "/* y */ a", none⟩, ⟨"b", "b", some "// x"⟩,
      stubEntry "    " ⟨"Q", "c"⟩] := by
    exact sortEntries_eq_of_perm (.swap _ _ _) (by decide)
  obtain ⟨object, hobject, hread⟩ := Option.map_eq_some_iff.mp hliteral
  refine ⟨object, hobject, hlaid object hobject, rebuilt_keeps (hlaid object hobject) rfl _, ?_⟩
  rw [hread, rebuilt_eq]
  have hentries : Binding.entries source ⟨"", 13, ⟨[⟨"b", ⟨18, 19⟩, some ⟨21, 25⟩⟩,
      ⟨"a", ⟨27, 36⟩, none⟩], none, ⟨16, 46⟩, some ⟨37, 44⟩⟩, none⟩ [⟨"Q", "c"⟩] =
      [⟨"b", "b", some "// x"⟩, ⟨"a", "/* y */ a", none⟩, stubEntry "    " ⟨"Q", "c"⟩] := by
    decide +kernel
  rw [hentries, hsorted]
  decide +kernel

end TypeLoom.ResolverModule
