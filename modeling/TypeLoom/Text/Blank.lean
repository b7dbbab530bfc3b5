/-!
# Blank characters, trimming and lines

A text is blank when every character is white space in the sense of the Unicode property
`White_Space`. Trimming removes blank characters at the ends only. Lines end at a line feed, and a
carriage return directly before that line feed belongs to the line end; a carriage return at the
end of an unterminated last line is text.
-/

namespace TypeLoom.Text

/-- The characters with the Unicode property `White_Space`. -/
def isBlank (c : Char) : Bool :=
  let n := c.toNat
  (0x09 ≤ n && n ≤ 0x0D) || n == 0x20 || n == 0x85 || n == 0xA0 || n == 0x1680 ||
    (0x2000 ≤ n && n ≤ 0x200A) || n == 0x2028 || n == 0x2029 || n == 0x202F || n == 0x205F ||
    n == 0x3000

def trimStart (cs : List Char) : List Char := cs.dropWhile isBlank

def trimEnd (cs : List Char) : List Char := (cs.reverse.dropWhile isBlank).reverse

def trim (cs : List Char) : List Char := trimEnd (trimStart cs)

/-- The text without blank characters at its ends. -/
def trimmed (s : String) : String := String.ofList (trim s.toList)

/-- Whether nothing but blank characters occurs. -/
def allBlank (s : String) : Bool := s.toList.all isBlank

/-- Pieces between separators; there is always at least one piece. -/
def splitAt (sep : Char → Bool) : List Char → List (List Char)
  | [] => [[]]
  | c :: cs =>
    if sep c then [] :: splitAt sep cs
    else match splitAt sep cs with
      | [] => [[c]]
      | piece :: pieces => (c :: piece) :: pieces

/-- Drops one carriage return at the end. -/
def dropReturn (line : List Char) : List Char :=
  if line.getLast? == some '\r' then line.dropLast else line

/-- The lines of a list of pieces cut at line feeds: every piece but the last was terminated. -/
def linesOfPieces : List (List Char) → List (List Char)
  | [] => []
  | [last] => if last.isEmpty then [] else [last]
  | piece :: pieces => dropReturn piece :: linesOfPieces pieces

def lines (cs : List Char) : List (List Char) := linesOfPieces (splitAt (· == '\n') cs)

/-- Replaces every occurrence of a two-character text, from left to right. -/
def replacePair (a b : Char) (by' : List Char) : List Char → List Char
  | [] => []
  | [c] => [c]
  | c :: d :: cs =>
    if c == a && d == b then by' ++ replacePair a b by' cs
    else c :: replacePair a b by' (d :: cs)

theorem splitAt_ne_nil (sep : Char → Bool) (cs : List Char) : splitAt sep cs ≠ [] := by
  induction cs with
  | nil => simp [splitAt]
  | cons c cs _ =>
    rw [splitAt]
    split
    · simp
    · split <;> simp

/-- A text is blank exactly when nothing is left of it after trimming its start. -/
theorem trimStart_eq_nil_iff (cs : List Char) : trimStart cs = [] ↔ cs.all isBlank = true := by
  induction cs with
  | nil => simp [trimStart]
  | cons c cs ih =>
    cases hc : isBlank c
    · simp [trimStart, List.dropWhile, hc]
    · have hstep : trimStart (c :: cs) = trimStart cs := by simp [trimStart, hc]
      rw [hstep, ih]
      simp [hc]

end TypeLoom.Text
