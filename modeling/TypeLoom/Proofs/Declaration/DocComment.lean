import Mathlib.Data.List.Chain
import TypeLoom.Declaration.Text
import TypeLoom.Proofs.Path.Relative

/-!
# Descriptions as block comments

A description becomes a block comment with one line for each of its lines. A star that is followed
by a slash would close the comment, so nothing written before the comment's end may have one: no
line does, since they are broken apart in it, and no two lines make one together, since a line feed
stands between them. Main statement: whatever the description and the indentation, what is written
is empty or one comment that its last line closes, and its lines are those of the description.
-/

namespace TypeLoom.Text

variable {a b : Char} {by' cs : List Char}

/-- A text in which each occurrence of a mark, none of which overlap, is replaced by another. -/
def Replaced (mark by' cs ds : List Char) : Prop :=
  ∃ pieces : List (List Char), (∀ p ∈ pieces, ¬mark <:+: p) ∧ cs = mark.intercalate pieces ∧
    ds = by'.intercalate pieces

/-- A character before the first piece belongs to that piece. -/
theorem cons_intercalate (sep : List Char) (c : Char) (p : List Char) (ps : List (List Char)) :
    sep.intercalate ((c :: p) :: ps) = c :: sep.intercalate (p :: ps) := by
  cases ps with
  | nil => simp [List.intercalate]
  | cons q qs =>
    rw [List.intercalate_cons_cons, List.intercalate_cons_cons, List.cons_append, List.cons_append]

theorem replaced_replacePair (a b : Char) (by' cs : List Char) :
    Replaced [a, b] by' cs (replacePair a b by' cs) := by
  -- There is always a first piece, to which the next character is added or before which one starts.
  suffices h : ∃ p ps, (∀ q ∈ p :: ps, ¬[a, b] <:+: q) ∧ cs = [a, b].intercalate (p :: ps) ∧
      replacePair a b by' cs = by'.intercalate (p :: ps) by
    obtain ⟨p, ps, h⟩ := h
    exact ⟨p :: ps, h⟩
  fun_induction replacePair a b by' cs with
  | case1 => exact ⟨[], [], by simp, rfl, rfl⟩
  | case2 c =>
    refine ⟨[c], [], ?_, rfl, rfl⟩
    rintro q hq hmark
    rw [List.mem_singleton.mp hq] at hmark
    exact absurd hmark.length_le (by simp)
  | case3 c d cs h ih =>
    obtain ⟨p, ps, hps, hcs, hreplaced⟩ := ih
    simp only [Bool.and_eq_true, beq_iff_eq] at h
    refine ⟨[], p :: ps, List.forall_mem_cons.mpr ⟨by simp, hps⟩, ?_, ?_⟩
    · rw [List.intercalate_cons_cons, ← hcs, h.1, h.2]
      rfl
    · rw [List.intercalate_cons_cons, ← hreplaced]
      rfl
  | case4 c d cs h ih =>
    obtain ⟨p, ps, hps, hcs, hreplaced⟩ := ih
    obtain ⟨hp, hps⟩ := List.forall_mem_cons.mp hps
    refine ⟨c :: p, ps, List.forall_mem_cons.mpr ⟨?_, hps⟩, ?_, ?_⟩
    · intro hmark
      rcases List.infix_cons_iff.mp hmark with hprefix | hinfix
      · -- The mark would stand at the front of the text, where it was looked for.
        obtain ⟨rest, hrest⟩ := hprefix
        obtain ⟨rfl, htail⟩ := List.cons.inj hrest
        have hfront := cons_intercalate [a, b] b rest ps
        rw [show b :: rest = p from htail, ← hcs] at hfront
        obtain ⟨rfl, -⟩ := List.cons.inj hfront
        simp at h
      · exact hp hinfix
    · rw [cons_intercalate, ← hcs]
    · rw [cons_intercalate, ← hreplaced]

/-- What stands in a text whose marks are replaced stood there before or is part of what replaces
them. -/
theorem mem_replacePair {c : Char} (h : c ∈ replacePair a b by' cs) : c ∈ by' ∨ c ∈ cs := by
  fun_induction replacePair a b by' cs with
  | case1 | case2 => exact .inr h
  | case3 d e cs _ ih =>
    rcases List.mem_append.mp h with h | h
    · exact .inl h
    · exact (ih h).imp_right fun h => List.mem_cons_of_mem d (List.mem_cons_of_mem e h)
  | case4 d e cs _ ih =>
    rcases List.mem_cons.mp h with rfl | h
    · exact .inr List.mem_cons_self
    · exact (ih h).imp_right (List.mem_cons_of_mem d)

/-- The first character stays where marks are replaced by texts that begin like them. -/
theorem head?_replacePair : (replacePair a b (a :: by') cs).head? = cs.head? := by
  fun_cases replacePair a b (a :: by') cs with
  | case3 c d cs h =>
    simp only [Bool.and_eq_true, beq_iff_eq] at h
    rw [h.1]
    rfl
  | case1 | case2 | case4 => rfl

theorem replacePair_eq_nil_iff : replacePair a b (a :: by') cs = [] ↔ cs = [] := by
  rw [← List.head?_eq_none_iff, head?_replacePair, List.head?_eq_none_iff]

theorem mem_trimEnd {c : Char} (h : c ∈ trimEnd cs) : c ∈ cs := by
  have hmem := (List.dropWhile_sublist (l := cs.reverse) isBlank).subset (List.mem_reverse.mp h)
  exact List.mem_reverse.mp hmem

/-- What is trimmed at the end of a text is blank. -/
theorem exists_blanks (cs : List Char) : ∃ blanks, cs = trimEnd cs ++ blanks ∧
    blanks.all isBlank = true := by
  refine ⟨(cs.reverse.takeWhile isBlank).reverse, ?_, ?_⟩
  · rw [trimEnd, ← List.reverse_append, List.takeWhile_append_dropWhile, List.reverse_reverse]
  · rw [List.all_reverse]
    exact List.all_takeWhile

/-- Nothing is left of a text after trimming it exactly if it is blank. -/
theorem trim_eq_nil_iff : trim cs = [] ↔ cs.all isBlank = true := by
  rw [← trimStart_eq_nil_iff]
  constructor
  · intro h
    by_contra hne
    -- What is left starts with a character that trimming the end keeps.
    obtain ⟨c, rest, hstart⟩ := List.exists_cons_of_ne_nil hne
    have hc : isBlank c = false := by
      have hhead := List.head?_dropWhile_not isBlank cs
      rw [show cs.dropWhile isBlank = c :: rest from hstart] at hhead
      simpa using hhead
    obtain ⟨blanks, hblanks, hall⟩ := exists_blanks (trimStart cs)
    rw [show trimEnd (trimStart cs) = [] from h, List.nil_append, hstart] at hblanks
    rw [← hblanks, List.all_cons, hc] at hall
    cases hall
  · intro h
    rw [trim, h]
    rfl

/-- No line has a line feed in it. -/
theorem not_mem_of_mem_lines {line : List Char} (h : line ∈ lines cs) : '\n' ∉ line := by
  have hpieces : ∀ piece ∈ splitAt (· == '\n') cs, '\n' ∉ piece := by
    intro piece hpiece hmem
    simpa using sep_of_mem_splitAt hpiece '\n' hmem
  unfold lines at h
  revert h hpieces
  generalize splitAt (· == '\n') cs = pieces
  intro h hpieces
  fun_induction linesOfPieces pieces with
  | case1 => cases h
  | case2 last hlast => cases h
  | case3 last hlast =>
    rw [List.mem_singleton.mp h]
    exact hpieces last List.mem_cons_self
  | case4 piece pieces _ ih =>
    obtain ⟨hpiece, hpieces⟩ := List.forall_mem_cons.mp hpieces
    rcases List.mem_cons.mp h with rfl | h
    · unfold dropReturn
      split
      · exact fun hmem => hpiece (List.dropLast_subset piece hmem)
      · exact hpiece
    · exact ih h hpieces

end TypeLoom.Text

namespace TypeLoom.Declaration

/-- What closes a block comment, and what is written for it inside one. -/
def closing : List Char := ['*', '/']

def brokenClosing : List Char := ['*', '\\', '/']

/-- What is written after the star of a comment's line for a line of a description: nothing for a
blank one, and else the line without blanks at its end. -/
inductive LineBody : List Char → List Char → Prop
  | blank {line : List Char} (h : line.all Text.isBlank = true) : LineBody line []
  | text {kept blanks written : List Char} (hkept : kept ≠ [])
      (hblanks : blanks.all Text.isBlank = true)
      (hwritten : Text.Replaced closing brokenClosing kept written) :
      LineBody (kept ++ blanks) (' ' :: written)

/-- The lines of a comment with given bodies. -/
def commentLines (indent : List Char) (bodies : List (List Char)) : List (List Char) :=
  (indent ++ ['/', '*', '*']) :: bodies.map (fun body => indent ++ [' ', '*'] ++ body) ++
    [indent ++ [' ', '*', '/']]

/-- One block comment: it has a line for each line of a description between the lines that open and
close it, and nothing closes it before its end. -/
structure BlockComment (indent : List Char) (description : List (List Char)) (text : List Char) :
    Prop where
  lines : ∃ bodies, List.Forall₂ LineBody description bodies ∧
    text = (commentLines indent bodies).flatMap (· ++ ['\n']) ∧
    ∀ line ∈ commentLines indent bodies, '\n' ∉ line
  closes : ∀ before after, text = before ++ closing ++ after → after = ['\n']

/-! ### Nothing closes a comment early -/

/-- Two characters that do not close a comment. -/
def Apart (c d : Char) : Prop := ¬(c = '*' ∧ d = '/')

theorem isChain_replacePair (cs : List Char) :
    (Text.replacePair '*' '/' brokenClosing cs).IsChain Apart := by
  fun_induction Text.replacePair '*' '/' brokenClosing cs with
  | case1 => exact .nil
  | case2 c => exact .singleton c
  | case3 c d cs _ ih =>
    refine List.isChain_append.mpr ⟨by simp [brokenClosing, Apart], ih, ?_⟩
    simp [brokenClosing, Apart]
  | case4 c d cs h ih =>
    refine List.isChain_cons.mpr ⟨?_, ih⟩
    rw [brokenClosing, Text.head?_replacePair]
    rintro e ⟨⟩ ⟨rfl, rfl⟩
    simp at h

/-- A line feed keeps lines apart. -/
theorem isChain_flatMap_lines {ls : List (List Char)} (h : ∀ l ∈ ls, l.IsChain Apart) :
    (ls.flatMap (· ++ ['\n'])).IsChain Apart := by
  induction ls with
  | nil => exact .nil
  | cons l ls ih =>
    obtain ⟨hl, hls⟩ := List.forall_mem_cons.mp h
    rw [List.flatMap_cons]
    refine List.isChain_append.mpr ⟨?_, ih hls, ?_⟩
    · exact List.isChain_append.mpr ⟨hl, .singleton _, by simp [Apart]⟩
    · simp [Apart]

theorem isChain_spaces (n : Nat) {cs : List Char} (hcs : cs.IsChain Apart) :
    (List.replicate n ' ' ++ cs).IsChain Apart := by
  refine List.isChain_append.mpr ⟨List.isChain_replicate_of_rel n (by simp [Apart]), hcs, ?_⟩
  intro c hc d _ hclosing
  rw [List.eq_of_mem_replicate (List.mem_of_getLast? hc)] at hclosing
  exact absurd hclosing.1 (by decide)

/-- A mark that stands first at the end of a text stands nowhere else. -/
theorem eq_of_closing {cs before after : List Char} (hcs : cs.IsChain Apart)
    (h : cs ++ (closing ++ ['\n']) = before ++ closing ++ after) : after = ['\n'] := by
  rw [List.append_assoc] at h
  rcases List.append_eq_append_iff.mp h with ⟨es, -, hend⟩ | ⟨es, hstart, hend⟩
  · -- The mark does not start behind the first character of the end.
    rcases es with _ | ⟨c, _ | ⟨d, _ | ⟨e, es⟩⟩⟩ <;> simp_all [closing]
  · rcases es with _ | ⟨c, _ | ⟨d, es⟩⟩
    · simpa [closing] using hend
    · simp [closing] at hend
    · -- Here it would stand in the chain.
      simp only [closing, List.cons_append, List.cons.injEq] at hend
      exact absurd ⟨hend.1.symm, hend.2.1.symm⟩
        (List.isChain_iff_forall_rel_of_append_cons_cons.mp hcs hstart)

/-! ### Lines -/

/-- The body of a line of a comment. -/
def bodyOf (line : List Char) : List Char := (docLine line).drop 2

theorem docLine_eq (line : List Char) : docLine line = [' ', '*'] ++ bodyOf line := by
  unfold bodyOf docLine
  split <;> rfl

theorem lineBody_bodyOf (line : List Char) : LineBody line (bodyOf line) := by
  obtain ⟨blanks, hline, hblanks⟩ := Text.exists_blanks line
  have hreplaced := Text.replaced_replacePair '*' '/' brokenClosing (Text.trimEnd line)
  have hempty : Text.replacePair '*' '/' brokenClosing (Text.trimEnd line) = [] ↔
      Text.trimEnd line = [] := Text.replacePair_eq_nil_iff
  unfold bodyOf docLine
  split
  · rename_i hnil
    rw [hempty.mp hnil, List.nil_append] at hline
    exact .blank (hline ▸ hblanks)
  · rename_i hne
    have hkept : Text.trimEnd line ≠ [] := fun hnil => hne (hempty.mpr hnil)
    have hbody := LineBody.text hkept hblanks hreplaced
    rw [← hline] at hbody
    exact hbody

theorem bodyOf_cases (line : List Char) : bodyOf line = [] ∨
    bodyOf line = ' ' :: Text.replacePair '*' '/' brokenClosing (Text.trimEnd line) := by
  unfold bodyOf docLine
  split
  · exact .inl rfl
  · exact .inr rfl

theorem isChain_bodyLine (line : List Char) : ([' ', '*'] ++ bodyOf line).IsChain Apart := by
  rcases bodyOf_cases line with h | h
  · rw [h]
    simp [Apart]
  · rw [h]
    refine .cons_cons (by simp [Apart]) (.cons_cons (by simp [Apart]) ?_)
    exact List.isChain_cons.mpr ⟨by simp [Apart], isChain_replacePair _⟩

theorem not_mem_bodyOf {line : List Char} (h : '\n' ∉ line) : '\n' ∉ bodyOf line := by
  rcases bodyOf_cases line with hbody | hbody
  · rw [hbody]
    exact List.not_mem_nil
  · rw [hbody, List.mem_cons, not_or]
    refine ⟨by decide, fun hmem => ?_⟩
    rcases Text.mem_replacePair hmem with hmem | hmem
    · exact absurd hmem (by decide)
    · exact h (Text.mem_trimEnd hmem)

/-- What is written for a description that is not blank is a block comment. -/
theorem blockComment_docLines (n : Nat) (description : List (List Char))
    (hlines : ∀ line ∈ description, '\n' ∉ line) :
    BlockComment (List.replicate n ' ') description
      ((commentLines (List.replicate n ' ') (description.map bodyOf)).flatMap (· ++ ['\n'])) := by
  constructor
  case lines =>
    refine ⟨_, ?_, rfl, ?_⟩
    · rw [List.forall₂_map_right_iff]
      exact List.forall₂_same.mpr fun line _ => lineBody_bodyOf line
    · have hspaces : '\n' ∉ List.replicate n ' ' := fun hmem =>
        absurd (List.eq_of_mem_replicate hmem) (by decide)
      intro line hline
      simp only [commentLines, List.map_map, List.cons_append, List.mem_cons, List.mem_append,
        List.mem_map, Function.comp_apply, List.not_mem_nil, or_false] at hline
      rcases hline with rfl | ⟨line, hmem, rfl⟩ | rfl
      · simp [hspaces]
      · simp [hspaces, not_mem_bodyOf (hlines line hmem)]
      · simp [hspaces]
  case closes =>
    intro before after htext
    have hopen : ∀ l ∈ (List.replicate n ' ' ++ ['/', '*', '*']) ::
        (description.map bodyOf).map (fun body => List.replicate n ' ' ++ [' ', '*'] ++ body),
        l.IsChain Apart := by
      refine List.forall_mem_cons.mpr ⟨isChain_spaces n (by simp [Apart]), fun l hl => ?_⟩
      rw [List.map_map] at hl
      obtain ⟨line, -, rfl⟩ := List.mem_map.mp hl
      rw [Function.comp_apply, List.append_assoc]
      exact isChain_spaces n (isChain_bodyLine line)
    have hstart := isChain_flatMap_lines hopen
    have hlast : (List.replicate n ' ' ++ [' ']).IsChain Apart := isChain_spaces n (.singleton _)
    refine eq_of_closing (List.isChain_append.mpr ⟨hstart, hlast, ?_⟩) (Eq.trans ?_ htext)
    · -- The last line starts with a blank.
      intro c _ d hd hclosing
      have hblank : d ∈ List.replicate n ' ' ++ [' '] := List.mem_of_head? hd
      rw [← List.replicate_succ'] at hblank
      rw [List.eq_of_mem_replicate hblank] at hclosing
      exact absurd hclosing.2 (by decide)
    · rw [commentLines, List.flatMap_append, List.flatMap_singleton]
      simp [closing]

theorem docText_toList (indent : String) (doc : Option String) :
    (docText indent doc).toList = (docLines doc).flatMap (indent.toList ++ · ++ ['\n']) := by
  rw [docText, String.toList_join, List.flatMap_map]
  simp

/-- A description is written as nothing, if it is blank, or as one block comment that has one line
for each line of the trimmed description and is closed by its last line only. -/
theorem docText_is_comment (n : Nat) (description : String) :
    (Text.allBlank description = true ∧
        docText (String.ofList (List.replicate n ' ')) (some description) = "") ∨
      (Text.allBlank description = false ∧
        BlockComment (List.replicate n ' ') (Text.lines (Text.trim description.toList))
          (docText (String.ofList (List.replicate n ' ')) (some description)).toList) := by
  cases htrim : Text.trim description.toList with
  | nil =>
    refine .inl ⟨?_, by rw [docText, docLines, Option.getD_some, htrim]; rfl⟩
    rw [Text.allBlank, ← Text.trim_eq_nil_iff, htrim]
  | cons c cs =>
    refine .inr ⟨?_, ?_⟩
    · rw [← Bool.not_eq_true, Text.allBlank, ← Text.trim_eq_nil_iff, htrim]
      simp
    · have htext : docLines (some description) =
          ['/', '*', '*'] :: (Text.lines (c :: cs)).map docLine ++ [[' ', '*', '/']] := by
        rw [docLines, Option.getD_some, htrim]
      have hcomment := blockComment_docLines n (Text.lines (c :: cs)) fun line =>
        Text.not_mem_of_mem_lines
      rw [docText_toList, String.toList_ofList, htext]
      convert hcomment using 1
      simp [commentLines, List.flatMap_map, docLine_eq]

end TypeLoom.Declaration
