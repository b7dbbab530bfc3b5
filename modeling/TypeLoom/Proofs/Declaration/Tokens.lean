import TypeLoom.Proofs.Declaration.Reading

/-!
# The tokens of a type's text

The text of a type is cut into the words and punctuators it was put together from, whatever stands
between them: `scan_text`. One lemma per constructor says how its text starts and what it spells.
-/

namespace TypeLoom.Declaration

open TypeScript (Lexeme Token)
open TypeScript.Token (Spells isNameChar isNameStart)

namespace TypeExpr

open TypeReading (mark word)

mutual

/-- The tokens of a type's text. -/
def tokens : TypeExpr → List Lexeme
  | .array item =>
    if item.isLoose then mark "(" :: (item.tokens ++ [mark ")", mark "[", mark "]"])
    else item.tokens ++ [mark "[", mark "]"]
  | .function parameters result =>
    mark "(" :: (parameterTokens parameters ++ mark ")" :: mark "=>" :: result.tokens)
  | .reference name arguments =>
    match arguments with
    | [] => [word name]
    | a :: as => word name :: mark "<" :: (a.tokens ++ (tokensAfter "," as ++ [mark ">"]))
  | .union members =>
    match members with
    | [] => []
    | m :: ms => m.tokens ++ tokensAfter "|" ms
  | t => t.keyword?.toList.map word

/-- The tokens of types that each follow a separator. -/
def tokensAfter (separator : String) : List TypeExpr → List Lexeme
  | [] => []
  | t :: ts => mark separator :: (t.tokens ++ tokensAfter separator ts)

def parameterTokens : List (String × TypeExpr) → List Lexeme
  | [] => []
  | (n, t) :: ps => word n :: mark ":" :: (t.tokens ++ parameterTokensAfter ps)

def parameterTokensAfter : List (String × TypeExpr) → List Lexeme
  | [] => []
  | (n, t) :: ps => mark "," :: word n :: mark ":" :: (t.tokens ++ parameterTokensAfter ps)

end

theorem tokens_keyword {t : TypeExpr} {w : String} (hw : t.keyword? = some w) :
    t.tokens = [word w] := by
  cases t <;> first | cases hw; rfl | cases hw

theorem text_keyword {t : TypeExpr} {w : String} (hw : t.keyword? = some w) : t.text = w := by
  cases t <;> first | cases hw; rfl | cases hw

theorem spells_sign (s : String) {cs rest : List Char} {ls : List Lexeme}
    (hs : s.toList.head?.all (!Token.isSpace ·) = true)
    (hcut : ∀ operand, Token.cut operand false (s.toList ++ cs) =
      some (.punctuator, s.toList.length)) (h : Spells cs ls rest) :
    Spells (s.toList ++ cs) (mark s :: ls) rest :=
  .sign hs hcut h

/-- A separator as a text and as a token. A word ends where it starts. -/
structure Separates (gap separator : String) : Prop where
  head : ∀ cs, (gap.toList ++ cs).head?.all (!isNameChar ·) = true
  clean : '\x00' ∉ gap.toList
  spells : ∀ {cs rest : List Char} {ls : List Lexeme}, Spells cs ls rest →
    Spells (gap.toList ++ cs) (mark separator :: ls) rest

theorem separates_bar : Separates " | " "|" where
  head _ := rfl
  clean := by decide
  spells h := .space rfl (spells_sign "|" (by decide) (fun _ => rfl) (.space rfl h))

theorem separates_comma : Separates ", " "," where
  head _ := rfl
  clean := by decide
  spells h := .mark (c := ',') rfl (by decide) (.space rfl h)

/-- What is known of a type's text: how it starts, that a text can be read with it, and what its
tokens are where no name goes on after it. -/
structure Spelled (t : TypeExpr) : Prop where
  start : ∃ c cs, t.text.toList = c :: cs ∧ (c = '(' ∨ isNameStart c = true)
  clean : '\x00' ∉ t.text.toList
  spells : ∀ {cs rest : List Char} {ls : List Lexeme}, cs.head?.all (!isNameChar ·) = true →
    Spells cs ls rest → Spells (t.text.toList ++ cs) (t.tokens ++ ls) rest

theorem separated_toList (gap s : String) (ss : List String) :
    (separated gap (s :: ss)).toList =
      s.toList ++ ss.flatMap fun t => gap.toList ++ t.toList := by
  induction ss generalizing s with
  | nil => simp [separated]
  | cons t ss ih =>
    rw [separated, String.intercalate_cons_cons, String.toList_append, ← separated, ih,
      List.flatMap_cons, String.toList_append, List.append_assoc, List.append_assoc]

theorem typeTexts_eq_map (ts : List TypeExpr) : typeTexts ts = ts.map text := by
  induction ts with
  | nil => rw [typeTexts, List.map_nil]
  | cons t ts ih => rw [typeTexts, ih, List.map_cons]

/-! ### Names -/

theorem isName_toList {w : String} (hw : isName w = true) : ∃ c cs, w.toList = c :: cs ∧
    isNameStart c = true ∧ ∀ d ∈ cs, isNameChar d = true := by
  unfold isName at hw
  split at hw
  · cases hw
  · next c cs hchars =>
    simp only [Bool.and_eq_true] at hw
    exact ⟨c, cs, hchars, hw.1.1, List.all_eq_true.mp hw.1.2⟩

theorem isSpace_of_isNameChar {c : Char} (h : isNameChar c = true) : Token.isSpace c = false := by
  simp only [isNameChar, Bool.not_eq_true', Bool.or_eq_false_iff] at h
  exact h.1.2

theorem null_not_mem_name {w : String} (hw : isName w = true) : '\x00' ∉ w.toList := by
  obtain ⟨c, cs, hchars, hc, hcs⟩ := isName_toList hw
  have hnull : isNameChar '\x00' = false := by decide
  rw [hchars, List.mem_cons, not_or]
  constructor
  · rintro rfl
    rw [isNameStart, hnull] at hc
    cases hc
  · intro hmem
    rw [hcs _ hmem] at hnull
    cases hnull

/-- A name is one word where no character of a name follows it. -/
theorem spells_name {w : String} (hw : isName w = true) {cs rest : List Char} {ls : List Lexeme}
    (hcs : cs.head?.all (!isNameChar ·) = true) (h : Spells cs ls rest) :
    Spells (w.toList ++ cs) (word w :: ls) rest := by
  obtain ⟨c, v, hchars, hc, hv⟩ := isName_toList hw
  refine .token List.mem_cons_self ?_ ?_ h
  · rw [hchars]
    rintro d ⟨⟩
    exact isSpace_of_isNameChar (Bool.and_eq_true_iff.mp hc).1
  · intro operand
    rw [hchars]
    refine Token.cut_word hc hv fun d hd => ?_
    simpa using Option.all_eq_true _ _ |>.mp hcs d hd

/-! ### Types -/

theorem spelled_keyword {t : TypeExpr} {w : String} (hw : t.keyword? = some w) : Spelled t where
  start := by
    cases t <;> first | exact ⟨_, _, rfl, .inr (by decide)⟩ | cases hw
  clean := by
    cases t <;> first | decide | cases hw
  spells hcs h := by
    rw [text_keyword hw, tokens_keyword hw]
    refine .word ?_ hcs h
    cases t <;> first | cases hw; decide | cases hw

/-! ### Lists of types and of parameters -/

/-- What each item of a list spells is spelled by all of them, each after a separator. -/
theorem spells_separated {α : Type} {gap separator : String} (hg : Separates gap separator)
    {chars : α → List Char} {lexemes : α → List Lexeme} {xs : List α} {rest : List Char}
    (hxs : ∀ x ∈ xs, ∀ {cs : List Char} {ls : List Lexeme},
      cs.head?.all (!isNameChar ·) = true → Spells cs ls rest →
        Spells (chars x ++ cs) (lexemes x ++ ls) rest)
    {cs : List Char} {ls : List Lexeme} (hcs : cs.head?.all (!isNameChar ·) = true)
    (h : Spells cs ls rest) :
    ((xs.flatMap fun x => gap.toList ++ chars x) ++ cs).head?.all (!isNameChar ·) = true ∧
      Spells ((xs.flatMap fun x => gap.toList ++ chars x) ++ cs)
        ((xs.flatMap fun x => mark separator :: lexemes x) ++ ls) rest := by
  induction xs with
  | nil => exact ⟨hcs, h⟩
  | cons x xs ih =>
    rw [List.forall_mem_cons] at hxs
    obtain ⟨hhead, hrest⟩ := ih hxs.2
    rw [List.flatMap_cons, List.flatMap_cons, List.append_assoc, List.append_assoc,
      List.append_assoc, List.cons_append]
    exact ⟨hg.head _, hg.spells (hxs.1 hhead hrest)⟩

theorem tokensAfter_eq_flatMap (separator : String) (ts : List TypeExpr) :
    tokensAfter separator ts = ts.flatMap fun t => mark separator :: t.tokens := by
  induction ts with
  | nil => rw [tokensAfter, List.flatMap_nil]
  | cons t ts ih => rw [tokensAfter, ih, List.flatMap_cons, List.cons_append]

theorem spells_after {gap separator : String} (hg : Separates gap separator) {ts : List TypeExpr}
    (hts : ∀ t ∈ ts, Spelled t) {cs rest : List Char} {ls : List Lexeme}
    (hcs : cs.head?.all (!isNameChar ·) = true) (h : Spells cs ls rest) :
    ((ts.flatMap fun t => gap.toList ++ t.text.toList) ++ cs).head?.all (!isNameChar ·) = true ∧
      Spells ((ts.flatMap fun t => gap.toList ++ t.text.toList) ++ cs)
        (tokensAfter separator ts ++ ls) rest := by
  rw [tokensAfter_eq_flatMap]
  exact spells_separated hg (fun t ht => (hts t ht).spells) hcs h

theorem clean_after {gap separator : String} (hg : Separates gap separator) {ts : List TypeExpr}
    (hts : ∀ t ∈ ts, Spelled t) : '\x00' ∉ ts.flatMap fun t => gap.toList ++ t.text.toList := by
  simp only [List.mem_flatMap, List.mem_append, not_exists, not_and, not_or]
  exact fun t ht => ⟨hg.clean, (hts t ht).clean⟩

/-- A parameter with its type. -/
def parameterText (p : String × TypeExpr) : String := p.1 ++ ": " ++ p.2.text

theorem parameterTexts_eq_map (ps : List (String × TypeExpr)) :
    parameterTexts ps = ps.map parameterText := by
  induction ps with
  | nil => rw [parameterTexts, List.map_nil]
  | cons p ps ih => rw [parameterTexts, ih, List.map_cons, parameterText]

theorem parameterText_toList (p : String × TypeExpr) :
    (parameterText p).toList = p.1.toList ++ ':' :: ' ' :: p.2.text.toList := by
  simp [parameterText]

theorem clean_parameter {p : String × TypeExpr} (hn : isName p.1 = true) (hp : Spelled p.2) :
    '\x00' ∉ (parameterText p).toList := by
  have := null_not_mem_name hn
  have := hp.clean
  simp_all [parameterText_toList]

theorem spells_parameter {p : String × TypeExpr} (hn : isName p.1 = true) (hp : Spelled p.2)
    {cs rest : List Char} {ls : List Lexeme} (hcs : cs.head?.all (!isNameChar ·) = true)
    (h : Spells cs ls rest) : Spells ((parameterText p).toList ++ cs)
      ((word p.1 :: mark ":" :: p.2.tokens) ++ ls) rest := by
  rw [parameterText_toList, List.append_assoc, List.cons_append, List.cons_append]
  exact spells_name hn rfl (.mark rfl (by decide) (.space rfl (hp.spells hcs h)))

theorem parameterTokensAfter_eq_flatMap (ps : List (String × TypeExpr)) :
    parameterTokensAfter ps =
      ps.flatMap fun p => mark "," :: word p.1 :: mark ":" :: p.2.tokens := by
  induction ps with
  | nil => rw [parameterTokensAfter, List.flatMap_nil]
  | cons p ps ih =>
    rw [parameterTokensAfter, ih, List.flatMap_cons, List.cons_append, List.cons_append,
      List.cons_append]

/-- Parameters up to the parenthesis after them. -/
theorem spells_parameters {ps : List (String × TypeExpr)} (hn : ∀ p ∈ ps, isName p.1 = true)
    (hps : ∀ p ∈ ps, Spelled p.2) {cs rest : List Char} {ls : List Lexeme}
    (hcs : cs.head?.all (!isNameChar ·) = true) (h : Spells cs ls rest) :
    Spells ((separated ", " (parameterTexts ps)).toList ++ cs) (parameterTokens ps ++ ls) rest := by
  rw [parameterTexts_eq_map]
  cases ps with
  | nil =>
    rw [parameterTokens]
    exact h
  | cons p ps =>
    rw [List.forall_mem_cons] at hn hps
    obtain ⟨hhead, hrest⟩ := spells_separated separates_comma
      (fun q hq => spells_parameter (hn.2 q hq) (hps.2 q hq)) hcs h
    rw [← parameterTokensAfter_eq_flatMap] at hrest
    have hall := spells_parameter hn.1 hps.1 hhead hrest
    rw [List.map_cons, separated_toList, List.flatMap_map, List.append_assoc, parameterTokens]
    simpa only [List.cons_append, List.append_assoc] using hall

theorem clean_parameters {ps : List (String × TypeExpr)} (hn : ∀ p ∈ ps, isName p.1 = true)
    (hps : ∀ p ∈ ps, Spelled p.2) : '\x00' ∉ (separated ", " (parameterTexts ps)).toList := by
  rw [parameterTexts_eq_map]
  cases ps with
  | nil => exact List.not_mem_nil
  | cons p ps =>
    rw [List.map_cons, separated_toList, List.flatMap_map, List.mem_append, not_or,
      List.mem_flatMap]
    refine ⟨clean_parameter (hn p List.mem_cons_self) (hps p List.mem_cons_self), ?_⟩
    rintro ⟨q, hq, hmem⟩
    have hq' := List.mem_cons_of_mem p hq
    exact (List.mem_append.mp hmem).elim separates_comma.clean
      (clean_parameter (hn q hq') (hps q hq'))

/-! ### Compound types -/

theorem spelled_array {item : TypeExpr} (hi : Spelled item) : Spelled (.array item) := by
  obtain ⟨c, cs, hstart, hc⟩ := hi.start
  have hclean := hi.clean
  have hbrackets : ∀ {cs rest : List Char} {ls : List Lexeme}, Spells cs ls rest →
      Spells ('[' :: ']' :: cs) (mark "[" :: mark "]" :: ls) rest := fun h =>
    spells_sign "[" (by decide) (fun _ => rfl) (spells_sign "]" (by decide) (fun _ => rfl) h)
  cases hloose : item.isLoose with
  | true =>
    have htext : (array item).text.toList = '(' :: (item.text.toList ++ [')', '[', ']']) := by
      rw [text, hloose]
      simp
    refine ⟨⟨'(', _, htext, .inl rfl⟩, by simp_all, fun _ h => ?_⟩
    rw [htext, tokens, if_pos hloose]
    simp only [List.cons_append, List.append_assoc, List.nil_append]
    exact .mark rfl (by decide) (hi.spells rfl (.mark rfl (by decide) (hbrackets h)))
  | false =>
    have htext : (array item).text.toList = item.text.toList ++ ['[', ']'] := by
      rw [text, hloose]
      simp
    refine ⟨⟨c, _, by rw [htext, hstart]; rfl, hc⟩, by simp_all, fun _ h => ?_⟩
    rw [htext, tokens, if_neg (by simp [hloose]), List.append_assoc, List.append_assoc]
    exact hi.spells rfl (hbrackets h)

theorem spelled_function {parameters : List (String × TypeExpr)} {result : TypeExpr}
    (hn : ∀ p ∈ parameters, isName p.1 = true) (hp : ∀ p ∈ parameters, Spelled p.2)
    (hr : Spelled result) : Spelled (.function parameters result) := by
  have htext : (function parameters result).text.toList =
      '(' :: ((separated ", " (parameterTexts parameters)).toList ++
        ')' :: ' ' :: '=' :: '>' :: ' ' :: result.text.toList) := by
    rw [text]
    simp
  have hclean := clean_parameters hn hp
  have hclean' := hr.clean
  refine ⟨⟨'(', _, htext, .inl rfl⟩, by simp_all, fun hcs h => ?_⟩
  have hresult := hr.spells hcs h
  rw [htext, tokens]
  simp only [List.cons_append, List.append_assoc]
  refine .mark rfl (by decide) (spells_parameters hn hp rfl (.mark rfl (by decide) (.space rfl ?_)))
  exact spells_sign "=>" (by decide) (fun _ => rfl) (.space rfl hresult)

/-- An angle bracket before a type is not taken with what follows it. -/
theorem cut_angle {operand : Bool} {c : Char} (hc : c = '(' ∨ isNameStart c = true)
    (rest : List Char) : Token.cut operand false ('<' :: c :: rest) = some (.punctuator, 1) := by
  have hne : c ≠ '=' := by
    rintro rfl
    revert hc
    decide
  have hname : isNameStart '<' = false := by decide
  simp [Token.cut_plain (by decide : '<' ∉ Token.markers), hname, Token.punctuatorLength,
    Token.punctuators, List.isPrefixOf, hne.symm]

theorem spelled_reference {name : String} {arguments : List TypeExpr} (hn : isName name = true)
    (ha : ∀ a ∈ arguments, Spelled a) : Spelled (.reference name arguments) := by
  obtain ⟨c, v, hchars, hc, -⟩ := isName_toList hn
  have hclean := null_not_mem_name hn
  cases arguments with
  | nil =>
    have htext : (reference name []).text = name := by rw [text]
    refine ⟨⟨c, v, by rw [htext, hchars], .inr hc⟩, by rwa [htext], fun hcs h => ?_⟩
    rw [htext, tokens]
    exact spells_name hn hcs h
  | cons a as =>
    rw [List.forall_mem_cons] at ha
    have htext : (reference name (a :: as)).text.toList = name.toList ++ '<' :: (a.text.toList ++
        ((as.flatMap fun t => ", ".toList ++ t.text.toList) ++ ['>'])) := by
      rw [text, String.toList_append, String.toList_append, String.toList_append, separated_toList,
        typeTexts_eq_map, List.flatMap_map]
      simp
    have hclean' := ha.1.clean
    have hafter := clean_after separates_comma ha.2
    refine ⟨⟨c, _, by rw [htext, hchars]; rfl, .inr hc⟩, ?_, fun {cs rest ls} hcs h => ?_⟩
    · rw [htext]
      simp only [List.mem_append, List.mem_cons, not_or]
      exact ⟨hclean, by decide, hclean', hafter, by decide, List.not_mem_nil⟩
    · obtain ⟨d, ds, hstart, hd⟩ := ha.1.start
      have hclosing : Spells ('>' :: cs) (mark ">" :: ls) rest :=
        spells_sign ">" (by decide) (fun _ => rfl) h
      obtain ⟨hhead, harguments⟩ := spells_after separates_comma ha.2 (by rfl) hclosing
      rw [htext, tokens]
      simp only [List.cons_append, List.append_assoc, List.nil_append]
      refine spells_name hn rfl (spells_sign "<" (by decide) (fun operand => ?_)
        (ha.1.spells hhead harguments))
      rw [hstart]
      exact cut_angle hd _

theorem spelled_union {m : TypeExpr} {ms : List TypeExpr} (hm : Spelled m)
    (hms : ∀ u ∈ ms, Spelled u) : Spelled (.union (m :: ms)) := by
  have htext : (union (m :: ms)).text.toList =
      m.text.toList ++ ms.flatMap fun t => " | ".toList ++ t.text.toList := by
    rw [text, typeTexts, separated_toList, typeTexts_eq_map, List.flatMap_map]
  obtain ⟨c, cs, hstart, hc⟩ := hm.start
  refine ⟨⟨c, _, by rw [htext, hstart]; rfl, hc⟩, ?_, fun hcs h => ?_⟩
  · rw [htext, List.mem_append, not_or]
    exact ⟨hm.clean, clean_after separates_bar hms⟩
  · obtain ⟨hhead, hrest⟩ := spells_after separates_bar hms hcs h
    rw [htext, tokens, List.append_assoc, List.append_assoc]
    exact hm.spells hhead hrest

theorem Written.spelled {t : TypeExpr} (h : Written t) : Spelled t := by
  induction h with
  | keyword hw => exact spelled_keyword hw
  | array _ ih => exact spelled_array ih
  | function hn _ _ ihp ihr => exact spelled_function hn ihp ihr
  | reference hn _ _ iha => exact spelled_reference hn iha
  | union _ _ ihm ihms => exact spelled_union ihm ihms

/-- The text of a type is cut into its tokens. -/
theorem scan_text {t : TypeExpr} (h : Written t) : ∃ ts, Token.scan t.text.toList = .ok ts ∧
    (ts.filter (!·.isComment)).map Token.lexeme = t.tokens := by
  obtain ⟨c, cs, hstart, hc⟩ := h.spelled.start
  have hspells : Spells (t.text.toList ++ []) (t.tokens ++ []) [] := h.spelled.spells rfl .done
  rw [List.append_nil, List.append_nil] at hspells
  obtain ⟨ts, q, hscan, hls, hplain⟩ := hspells.scans (p := Token.startPlace) nofun
  have hhash : c ≠ '#' := by
    rintro rfl
    revert hc
    decide
  have hscanText : Token.scanText t.text.toList =
      Token.scanFrom (t.text.toList.length + 1) Token.startPlace t.text.toList := by
    rw [hstart, Token.scanText]
    rintro ds he
    exact hhash (List.cons.inj he).1
  refine ⟨ts, Token.scan_eq_ok_iff.mpr ⟨h.spelled.clean, ?_⟩, ?_⟩
  · rw [hscanText]
    exact Token.scanFrom_of_scans hscan rfl _ (Nat.lt_succ_self _)
  · rw [List.filter_eq_self.mpr fun u hu => by simp [hplain u hu], hls]

end TypeExpr

end TypeLoom.Declaration
