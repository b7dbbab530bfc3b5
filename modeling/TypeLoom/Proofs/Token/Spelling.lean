import TypeLoom.Declaration.Text
import TypeLoom.Proofs.Token.Scanning

/-!
# Texts with known tokens

`Spells cs ls rest` says that a text is cut into words, strings and punctuators with given texts,
up to where `rest` is to come, if no closing brace in it ends the hole of a template. Texts that are
put together from such pieces are judged from their end to their start, since a token ends where the
next character does not go on with it.
-/

namespace TypeLoom.TypeScript

open Declaration (isIdentifierStart isIdentifierChar)

/-- What a token is, wherever it stands. -/
structure Lexeme where
  kind : TokenKind
  text : String
  deriving DecidableEq, Inhabited, Repr

namespace Token

def lexeme (t : Token) : Lexeme := ⟨t.kind, t.text⟩

/-- The kinds of tokens that neither open nor close the holes of templates. -/
def plainKinds : List TokenKind := [.word, .string, .punctuator]

/-- A text that is cut into tokens, up to what is still to come. -/
inductive Spells : List Char → List Lexeme → List Char → Prop where
  | done {cs} : Spells cs [] cs
  | space {c cs ls rest} (hc : isSpace c = true) (h : Spells cs ls rest) : Spells (c :: cs) ls rest
  | token {k : TokenKind} {text : String} {cs ls rest} (hk : k ∈ plainKinds)
      (hs : ∀ c ∈ text.toList.head?, isSpace c = false)
      (hcut : ∀ operand, cut operand false (text.toList ++ cs) = some (k, text.toList.length))
      (h : Spells cs ls rest) : Spells (text.toList ++ cs) (⟨k, text⟩ :: ls) rest

theorem bracesAfter_plain {k : TokenKind} (hk : k ∈ plainKinds) (text : String) {bs : List Bool}
    (hbs : ∀ b ∈ bs, b = false) : ∀ b ∈ bracesAfter bs k text, b = false := by
  simp only [plainKinds, List.mem_cons, List.not_mem_nil, or_false] at hk
  rcases hk with rfl | rfl | rfl
  · exact hbs
  · exact hbs
  · intro b hb
    simp only [bracesAfter] at hb
    split at hb
    · rcases List.mem_cons.mp hb with rfl | hb
      · rfl
      · exact hbs b hb
    · split at hb
      · exact hbs b (List.mem_of_mem_drop hb)
      · exact hbs b hb

theorem inHole_eq_false {p : Place} (hp : ∀ b ∈ p.braces, b = false) : p.inHole = false := by
  rw [Place.inHole, beq_eq_false_iff_ne]
  intro h
  cases hp true (List.mem_of_head? h)

/-- Outside the holes of templates, the tokens that are cut are those that a text spells. -/
theorem Spells.scans {cs rest : List Char} {ls : List Lexeme} (h : Spells cs ls rest) {p : Place}
    (hp : ∀ b ∈ p.braces, b = false) : ∃ ts q, Scans p cs ts q rest ∧ ts.map lexeme = ls ∧
      ∀ t ∈ ts, t.isComment = false := by
  induction h generalizing p with
  | done => exact ⟨[], p, .done, rfl, nofun⟩
  | @space c cs ls rest hc h ih =>
    have hp' : ∀ b ∈ (p.afterSpace c).braces, b = false := hp
    obtain ⟨ts, q, hscan, hls, hplain⟩ := ih hp'
    exact ⟨ts, q, .space hc hscan, hls, hplain⟩
  | @token k text cs ls rest hk hs hcut h ih =>
    obtain ⟨c, w, hw⟩ : ∃ c w, text.toList = c :: w := List.exists_cons_of_ne_nil (by
      intro hnil
      have hpos := cut_pos (hcut true)
      rw [hnil] at hpos
      exact Nat.lt_irrefl 0 hpos)
    have hcut' : cut p.operand p.inHole (c :: (w ++ cs)) = some (k, (c :: w).length) := by
      rw [inHole_eq_false hp, ← List.cons_append, ← hw]
      exact hcut p.operand
    have hkind : (k == TokenKind.comment) = false := by
      simp only [plainKinds, List.mem_cons, List.not_mem_nil, or_false] at hk
      rcases hk with rfl | rfl | rfl <;> rfl
    have htake : (c :: (w ++ cs)).take (c :: w).length = c :: w := by
      rw [← List.cons_append, List.take_left]
    have hdrop : (c :: (w ++ cs)).drop (c :: w).length = cs := by
      rw [← List.cons_append, List.drop_left]
    have htext : String.ofList (c :: w) = text := by rw [← hw, String.ofList_toList]
    have hnext : ∀ b ∈ (take p k (c :: w).length (c :: (w ++ cs))).2.braces, b = false := by
      simp only [take, hkind, Bool.false_eq_true, if_false]
      exact bracesAfter_plain hk _ hp
    obtain ⟨ts, q, hscan, hls, hplain⟩ := ih hnext
    refine ⟨(take p k (c :: w).length (c :: (w ++ cs))).1 :: ts, q, ?_, ?_, ?_⟩
    · rw [hw, List.cons_append]
      refine .token (hs c (by rw [hw]; rfl)) hcut' ?_
      rw [hdrop]
      exact hscan
    · rw [List.map_cons, hls, lexeme, take_kind, take_text, htake, htext]
    · intro t ht
      rcases List.mem_cons.mp ht with rfl | ht
      · rw [isComment, take_kind, hkind]
      · exact hplain t ht

/-! ### Words -/

theorem isAlpha_iff {c : Char} : c.isAlpha = true ↔
    (0x41 ≤ c.toNat ∧ c.toNat ≤ 0x5A) ∨ (0x61 ≤ c.toNat ∧ c.toNat ≤ 0x7A) :=
  Bool.or_eq_true_iff.trans (or_congr decide_eq_true_iff
    (Bool.and_eq_true_iff.trans (and_congr decide_eq_true_iff decide_eq_true_iff)))

theorem isDigit_iff {c : Char} : c.isDigit = true ↔ 0x30 ≤ c.toNat ∧ c.toNat ≤ 0x39 :=
  Bool.and_eq_true_iff.trans (and_congr decide_eq_true_iff decide_eq_true_iff)

theorem isIdentifierChar_iff {c : Char} : isIdentifierChar c = true ↔
    (0x41 ≤ c.toNat ∧ c.toNat ≤ 0x5A) ∨ (0x61 ≤ c.toNat ∧ c.toNat ≤ 0x7A) ∨
      (0x30 ≤ c.toNat ∧ c.toNat ≤ 0x39) ∨ c = '_' ∨ c = '$' := by
  simp only [isIdentifierChar, Char.isAlphanum, Bool.or_eq_true, isAlpha_iff, isDigit_iff,
    beq_iff_eq, or_assoc]

theorem toNat_of_isIdentifierChar {c : Char} (h : isIdentifierChar c = true) :
    0x24 ≤ c.toNat ∧ c.toNat ≤ 0x7A := by
  rcases isIdentifierChar_iff.mp h with h | h | h | rfl | rfl
  · omega
  · omega
  · omega
  · decide
  · decide

theorem isNameChar_of_isIdentifierChar {c : Char} (h : isIdentifierChar c = true) :
    isNameChar c = true := by
  obtain ⟨hlo, hhi⟩ := toNat_of_isIdentifierChar h
  have hspace : isSpace c = false := by
    simp only [isSpace, Bool.or_eq_false_iff, Bool.and_eq_false_iff, decide_eq_false_iff_not,
      beq_eq_false_iff_ne]
    omega
  have hmarks : ":;\x60\"'@#.,|^&<=>+-*/\\%?!~()[]\x7b\x7d".toList.all (!isIdentifierChar ·) =
      true := by decide
  have hcontains : ":;\x60\"'@#.,|^&<=>+-*/\\%?!~()[]\x7b\x7d".toList.contains c = false := by
    rw [← Bool.not_eq_true, List.contains_iff_mem]
    intro hmem
    have hother := List.all_eq_true.mp hmarks c hmem
    rw [h] at hother
    cases hother
  simp only [isNameChar, hspace, hcontains, Bool.or_false, Bool.not_eq_true',
    decide_eq_false_iff_not]
  omega

/-- A name is cut where no character of a name follows it. -/
theorem cut_word {operand : Bool} {c : Char} {w rest : List Char}
    (hstart : isNameStart c = true) (hw : ∀ d ∈ w, isNameChar d = true)
    (hrest : ∀ d ∈ rest.head?, isNameChar d = false) :
    cut operand false (c :: (w ++ rest)) = some (.word, (c :: w).length) := by
  have hname : isNameChar c = true := (Bool.and_eq_true_iff.mp hstart).1
  have hdigit : c.isDigit = false := by simpa using (Bool.and_eq_true_iff.mp hstart).2
  have hplain : ('\'' :: '"' :: markers).all (!isNameChar ·) = true := by decide
  have hc : c ∉ '\'' :: '"' :: markers := by
    intro hmem
    have hother := List.all_eq_true.mp hplain c hmem
    rw [hname] at hother
    cases hother
  simp only [List.mem_cons, not_or] at hc
  have hquote : (c == '\'' || c == '"') = false := by simp [hc.1, hc.2.1]
  have htake : (c :: (w ++ rest)).takeWhile isNameChar = c :: w := by
    rw [List.takeWhile_cons_of_pos hname, List.takeWhile_append_of_pos hw]
    cases rest with
    | nil => simp
    | cons d ds => rw [List.takeWhile_cons_of_neg (by simp [hrest d rfl]), List.append_nil]
  rw [cut_plain (by simpa [markers] using hc.2.2), hquote, hdigit, hstart, htake]
  rfl

theorem isNameStart_of_isIdentifierStart {c : Char} (h : isIdentifierStart c = true) :
    isNameStart c = true ∧ isIdentifierChar c = true := by
  have hchar : isIdentifierChar c = true := by
    simp only [isIdentifierStart, isIdentifierChar, Char.isAlphanum, Bool.or_eq_true] at h ⊢
    tauto
  have hdigit : c.isDigit = false := by
    simp only [isIdentifierStart, Bool.or_eq_true, beq_iff_eq] at h
    rcases h with (h | rfl) | rfl
    · have hletter := isAlpha_iff.mp h
      rw [← Bool.not_eq_true, isDigit_iff]
      omega
    · rfl
    · rfl
  exact ⟨by rw [isNameStart, isNameChar_of_isIdentifierChar hchar, hdigit]; rfl, hchar⟩

/-- An identifier stands for a word where no character of a name follows it. -/
theorem Spells.word {w : String} (hw : Declaration.isIdentifier w.toList = true)
    {cs rest : List Char} {ls : List Lexeme} (hcs : cs.head?.all (!isNameChar ·) = true)
    (h : Spells cs ls rest) : Spells (w.toList ++ cs) (⟨.word, w⟩ :: ls) rest := by
  have hspace : ∀ d, isNameChar d = true → isSpace d = false := by
    intro d hd
    simp only [isNameChar, Bool.not_eq_true', Bool.or_eq_false_iff] at hd
    exact hd.1.2
  cases hchars : w.toList with
  | nil => rw [hchars] at hw; cases hw
  | cons c v =>
    rw [hchars] at hw
    obtain ⟨hc, hv⟩ := Bool.and_eq_true_iff.mp hw
    obtain ⟨hstart, hchar⟩ := isNameStart_of_isIdentifierStart hc
    rw [← hchars]
    refine .token List.mem_cons_self ?_ ?_ h
    · rw [hchars]
      rintro d ⟨⟩
      exact hspace c (isNameChar_of_isIdentifierChar hchar)
    · intro operand
      rw [hchars]
      refine cut_word hstart (fun d hd => ?_) (fun d hd => ?_)
      · exact isNameChar_of_isIdentifierChar (List.all_eq_true.mp hv d hd)
      · simpa using Option.all_eq_true _ _ |>.mp hcs d hd

/-! ### Punctuators -/

/-- Punctuators that no other one starts with. -/
def soleMarks : List Char := ['\x7b', '\x7d', '(', ')', ',', ';', ':']

theorem cut_mark {operand : Bool} {c : Char} (hc : c ∈ soleMarks) (rest : List Char) :
    cut operand false (c :: rest) = some (.punctuator, 1) := by
  simp only [soleMarks, List.mem_cons, List.not_mem_nil, or_false] at hc
  rcases hc with rfl | rfl | rfl | rfl | rfl | rfl | rfl <;> rfl

theorem Spells.mark {c : Char} {text : String} (ht : text.toList = [c]) (hc : c ∈ soleMarks)
    {cs rest : List Char} {ls : List Lexeme} (h : Spells cs ls rest) :
    Spells (c :: cs) (⟨.punctuator, text⟩ :: ls) rest := by
  have htoken : Spells (text.toList ++ cs) (⟨.punctuator, text⟩ :: ls) rest := by
    refine .token (by decide) ?_ ?_ h
    · rw [ht]
      rintro d ⟨⟩
      have hall : soleMarks.all (!isSpace ·) = true := by decide
      simpa using List.all_eq_true.mp hall c hc
    · intro operand
      rw [ht]
      exact cut_mark hc cs
  rwa [ht] at htoken

/-- A punctuator of more than one character, or one that others start with. -/
theorem Spells.sign {text : String} {cs rest : List Char} {ls : List Lexeme}
    (hs : text.toList.head?.all (!isSpace ·) = true)
    (hcut : ∀ operand, cut operand false (text.toList ++ cs) =
      some (.punctuator, text.toList.length)) (h : Spells cs ls rest) :
    Spells (text.toList ++ cs) (⟨.punctuator, text⟩ :: ls) rest := by
  refine .token (by decide) (fun c hc => ?_) hcut h
  simpa using Option.all_eq_true _ _ |>.mp hs c hc

end Token

end TypeLoom.TypeScript
