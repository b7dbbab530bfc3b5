import TypeLoom.Proofs.Declaration.Tokens

/-!
# What the text of a type is read as

`TypeExpr.outcome` says without tokens what the text of a type is read as. A function's arrow takes
all alternatives after it into the result, and a function after a bar cannot be read. The reader
finds just that: `read?_text`. The induction on the type has one statement for each level of the
grammar at which a type can stand: at the start, after a bar, and before brackets.
-/

namespace TypeLoom.Declaration

open TypeScript (Lexeme Token)

namespace TypeExpr

open TypeReading

/-- An alternative and those after it. -/
def before (t : Option TypeExpr) (more : Option (List TypeExpr)) : Option (List TypeExpr) :=
  t.bind fun t => more.map (t :: ·)

mutual

/-- The alternatives that a type's text is read as, at the start of a type or after a bar, if `more`
are read after it. -/
def outcome : TypeExpr → Bool → Option (List TypeExpr) → Option (List TypeExpr)
  | .array item, _, more =>
    before ((item.outcome true (some [])).map fun ts => .array (ofAlternatives ts)) more
  | .function parameters result, start, more =>
    if start then
      (parameterOutcomes parameters).bind fun ps =>
        (result.outcome true more).map fun ts => [.function ps (ofAlternatives ts)]
    else none
  | .reference name arguments, _, more =>
    before ((typeOutcomes arguments).map (.reference name)) more
  | .union members, start, more =>
    match members with
    | [] => none
    | m :: ms => m.outcome start (outcomesAfter ms more)
  | t, _, more => before (some t) more

/-- The alternatives that are read from types after bars. -/
def outcomesAfter : List TypeExpr → Option (List TypeExpr) → Option (List TypeExpr)
  | [], more => more
  | t :: ts, more => t.outcome false (outcomesAfter ts more)

def typeOutcomes : List TypeExpr → Option (List TypeExpr)
  | [] => some []
  | t :: ts => before ((t.outcome true (some [])).map ofAlternatives) (typeOutcomes ts)

def parameterOutcomes : List (String × TypeExpr) → Option (List (String × TypeExpr))
  | [] => some []
  | (n, t) :: ps =>
    (t.outcome true (some [])).bind fun ts =>
      (parameterOutcomes ps).map ((n, ofAlternatives ts) :: ·)

end

/-- What is read where brackets may follow. -/
def operand? : TypeExpr → Option TypeExpr
  | .array item => (item.outcome true (some [])).map fun ts => .array (ofAlternatives ts)
  | .reference name arguments => (typeOutcomes arguments).map (.reference name)
  | .function .. => none
  | .union _ => none
  | t => some t

theorem isLoose_keyword {t : TypeExpr} {w : String} (hw : t.keyword? = some w) :
    t.isLoose = false := by
  cases t <;> first | rfl | cases hw

theorem operand?_keyword {t : TypeExpr} {w : String} (hw : t.keyword? = some w) :
    t.operand? = some t := by
  cases t <;> first | rfl | cases hw

theorem outcome_of_operand {t : TypeExpr} (h : t.isLoose = false) (start : Bool)
    (more : Option (List TypeExpr)) : t.outcome start more = before t.operand? more := by
  cases t <;> first | rfl | cases h

theorem operand?_eq {t : TypeExpr} (h : t.isLoose = false) :
    (t.outcome true (some [])).map ofAlternatives = t.operand? := by
  rw [outcome_of_operand h]
  cases t.operand? <;> rfl

end TypeExpr

namespace TypeReading

open TypeExpr

/-- The tokens that can follow a type. -/
def closings : List Lexeme := ["|", ",", ")", ">"].map mark

/-- Tokens after a type, what is read of them as further alternatives, and what is left. -/
structure Following (rest : List Lexeme) (more : Option (List TypeExpr)) (left : List Lexeme) :
    Prop where
  head : ∀ l ∈ rest.head?, l ∈ closings
  reads : ∀ n, 4 * rest.length + 3 ≤ n → moreWithin n rest = more.map (·, left)

/-- A mark that no alternative starts with ends a type. -/
theorem following_mark {l : Lexeme} (hl : l ∈ closings) (hbar : l ≠ mark "|") (ls : List Lexeme) :
    Following (l :: ls) (some []) (l :: ls) where
  head := by
    rintro k ⟨⟩
    exact hl
  reads n hn := by
    cases n with
    | zero => omega
    | succ n => simp [moreWithin, after?, hbar]

theorem following_nil : Following [] (some []) [] where
  head := nofun
  reads n hn := by
    cases n with
    | zero => omega
    | succ n => simp [moreWithin, after?]

theorem Following.head?_ne {rest left : List Lexeme} {more : Option (List TypeExpr)}
    (h : Following rest more left) {l : Lexeme} (hl : l ∉ closings) : rest.head? ≠ some l :=
  fun he => hl (h.head l he)

theorem arrays_eq {ls : List Lexeme} (h : ls.head? ≠ some (mark "[")) (t : TypeExpr) :
    arrays t ls = (t, ls) := by
  match ls with
  | [] => rfl
  | [_] => rfl
  | k :: l :: ls =>
    rw [arrays, if_neg]
    rintro ⟨rfl, -⟩
    exact h rfl

/-! ### How types start -/

/-- A type is neither the end of a parenthesis nor a parameter. -/
theorem startsParameters_tokens {t : TypeExpr} (h : Written t) {rest : List Lexeme}
    (hrest : rest.head? ≠ some (mark ":")) : startsParameters (t.tokens ++ rest) = false := by
  induction h generalizing rest with
  | keyword hw =>
    rw [tokens_keyword hw]
    simpa [startsParameters, word, mark] using hrest
  | array _ ih =>
    rw [tokens]
    split
    · rfl
    · rw [List.append_assoc]
      exact ih (by simp [mark])
  | function => rfl
  | @reference name as _ _ _ _ =>
    cases as with
    | nil =>
      rw [tokens]
      simpa [startsParameters, word, mark] using hrest
    | cons a as =>
      rw [tokens]
      simp [startsParameters, word, mark]
  | @union m ms _ _ ih _ =>
    rw [tokens, List.append_assoc]
    refine ih ?_
    cases ms with
    | nil =>
      rw [tokensAfter]
      exact hrest
    | cons u us =>
      rw [tokensAfter]
      simp [mark]

/-- What brackets may follow is no function. -/
theorem startsFunction_tokens {t : TypeExpr} (h : Written t) (ht : t.isLoose = false)
    {rest : List Lexeme} : startsFunction (t.tokens ++ rest) = false := by
  induction h generalizing rest with
  | keyword hw =>
    rw [tokens_keyword hw]
    simp [startsFunction, word, mark]
  | @array item hi ih =>
    rw [tokens]
    split
    · rw [List.cons_append, List.append_assoc, startsFunction,
        startsParameters_tokens hi (by simp [mark])]
      rfl
    · next hloose =>
      rw [List.append_assoc]
      exact ih (by simpa using hloose)
  | function => cases ht
  | @reference name as _ _ _ _ =>
    cases as with
    | nil =>
      rw [tokens]
      simp [startsFunction, word, mark]
    | cons a as =>
      rw [tokens]
      simp [startsFunction, word, mark]
  | union => cases ht

/-! ### Reading, level by level -/

/-- What is read of a type's tokens with enough fuel: before brackets, at the start of a type, and
after a bar. -/
structure ReadAs (t : TypeExpr) : Prop where
  operand : t.isLoose = false → ∀ {n : Nat} {rest : List Lexeme}, rest.head? ≠ some (mark "<") →
    4 * (t.tokens ++ rest).length + 2 ≤ n →
      operandWithin n (t.tokens ++ rest) = t.operand?.map (arrays · rest)
  start : ∀ {n : Nat} {rest left : List Lexeme} {more : Option (List TypeExpr)},
    Following rest more left → 4 * (t.tokens ++ rest).length + 4 ≤ n →
      typeWithin n (t.tokens ++ rest) =
        (t.outcome true more).map fun ts => (ofAlternatives ts, left)
  next : ∀ {n : Nat} {rest left : List Lexeme} {more : Option (List TypeExpr)},
    Following rest more left → 4 * (mark "|" :: (t.tokens ++ rest)).length + 3 ≤ n →
      moreWithin n (mark "|" :: (t.tokens ++ rest)) = (t.outcome false more).map (·, left)

/-- What is read before brackets is read at the start of a type and after a bar too. -/
theorem readAs_of_operand {t : TypeExpr} (h : Written t) (ht : t.isLoose = false)
    (hoperand : ∀ {n : Nat} {rest : List Lexeme}, rest.head? ≠ some (mark "<") →
      4 * (t.tokens ++ rest).length + 2 ≤ n →
        operandWithin n (t.tokens ++ rest) = t.operand?.map (arrays · rest)) : ReadAs t := by
  have hends {n : Nat} {rest left : List Lexeme} {more : Option (List TypeExpr)}
      (hf : Following rest more left) (hn : 4 * (t.tokens ++ rest).length + 2 ≤ n) :
      operandWithin n (t.tokens ++ rest) = t.operand?.map (·, rest) := by
    rw [hoperand (hf.head?_ne (by decide)) hn]
    simp only [arrays_eq (hf.head?_ne (by decide))]
  refine ⟨fun _ => hoperand, fun {n rest left more} hf hn => ?_, fun {n rest left more} hf hn => ?_⟩
  · obtain ⟨n, rfl⟩ : ∃ k, n = k + 1 := ⟨n - 1, by omega⟩
    have hmore := hf.reads n (by rw [List.length_append] at hn; omega)
    rw [typeWithin, startsFunction_tokens h ht, if_neg Bool.false_ne_true, hends hf (by omega),
      outcome_of_operand ht, before]
    cases t.operand? with
    | none => rfl
    | some u =>
      simp only [Option.map_some, Option.bind_eq_bind, Option.bind_some, hmore]
      cases more <;> rfl
  · obtain ⟨n, rfl⟩ : ∃ k, n = k + 1 := ⟨n - 1, by omega⟩
    rw [List.length_cons] at hn
    have hmore := hf.reads n (by rw [List.length_append] at hn; omega)
    simp only [moreWithin, after?, if_true, hends hf (by omega : _ + 2 ≤ n), outcome_of_operand ht,
      before]
    cases t.operand? with
    | none => rfl
    | some u =>
      simp only [Option.map_some, Option.bind_eq_bind, Option.bind_some, hmore]
      cases more <;> rfl

theorem readAs_keyword {t : TypeExpr} {w : String} (hw : t.keyword? = some w) : ReadAs t := by
  refine readAs_of_operand (.keyword hw) (isLoose_keyword hw) fun {n rest} _ hn => ?_
  obtain ⟨n, rfl⟩ : ∃ k, n = k + 2 := ⟨n - 2, by omega⟩
  rw [tokens_keyword hw]
  cases t <;> first | cases hw; rfl | cases hw

/-- A type up to a mark that ends it. -/
theorem ReadAs.closed {t : TypeExpr} (h : ReadAs t) {l : Lexeme} (hl : l ∈ closings)
    (hbar : l ≠ mark "|") {n : Nat} {ls : List Lexeme}
    (hn : 4 * (t.tokens ++ l :: ls).length + 4 ≤ n) :
    typeWithin n (t.tokens ++ l :: ls) =
      (t.outcome true (some [])).map fun ts => (ofAlternatives ts, l :: ls) :=
  h.start (following_mark hl hbar ls) hn

theorem readAs_array {item : TypeExpr} (h : Written item) (hi : ReadAs item) :
    ReadAs (.array item) := by
  refine readAs_of_operand (.array h) rfl fun {n rest} _ hn => ?_
  -- In parentheses an item is read as a whole type, without them as what brackets may follow.
  cases hloose : item.isLoose with
  | true =>
    have htokens : (array item).tokens ++ rest =
        mark "(" :: (item.tokens ++ mark ")" :: mark "[" :: mark "]" :: rest) := by
      rw [tokens, if_pos hloose]
      simp
    rw [htokens] at hn ⊢
    rw [List.length_cons] at hn
    obtain ⟨n, rfl⟩ : ∃ k, n = k + 2 := ⟨n - 2, by omega⟩
    rw [operandWithin, primaryWithin, if_pos rfl, hi.closed (by decide) (by decide) (by omega),
      operand?]
    cases item.outcome true (some []) <;> rfl
  | false =>
    have htokens : (array item).tokens ++ rest = item.tokens ++ mark "[" :: mark "]" :: rest := by
      rw [tokens, if_neg (by simp [hloose])]
      simp
    rw [htokens] at hn ⊢
    rw [hi.operand hloose (by simp [mark]) hn, operand?, ← operand?_eq hloose]
    cases item.outcome true (some []) <;> rfl

/-! ### Type arguments and parameters -/

theorem typesWithin_arguments {a : TypeExpr} {as : List TypeExpr} (ha : ReadAs a)
    (has : ∀ u ∈ as, ReadAs u) {n : Nat} {rest : List Lexeme}
    (hn : 4 * (a.tokens ++ (tokensAfter "," as ++ mark ">" :: rest)).length + 5 ≤ n) :
    typesWithin n (a.tokens ++ (tokensAfter "," as ++ mark ">" :: rest)) =
      (typeOutcomes (a :: as)).map (·, mark ">" :: rest) := by
  induction as generalizing a n with
  | nil =>
    obtain ⟨n, rfl⟩ : ∃ k, n = k + 1 := ⟨n - 1, by omega⟩
    rw [tokensAfter, List.nil_append] at hn ⊢
    simp only [typesWithin, ha.closed (l := mark ">") (by decide) (by decide)
      (by omega : 4 * (a.tokens ++ mark ">" :: rest).length + 4 ≤ n), typeOutcomes, before]
    cases a.outcome true (some []) <;> rfl
  | cons u us ih =>
    rw [List.forall_mem_cons] at has
    obtain ⟨n, rfl⟩ : ∃ k, n = k + 1 := ⟨n - 1, by omega⟩
    rw [tokensAfter, List.cons_append, List.append_assoc] at hn ⊢
    have hrest := ih has.1 has.2 (n := n) (by
      rw [List.length_append, List.length_cons] at hn
      omega)
    rw [typesWithin, ha.closed (l := mark ",") (by decide) (by decide) (by omega), typeOutcomes,
      before]
    cases a.outcome true (some []) with
    | none => rfl
    | some ts =>
      simp only [Option.map_some, Option.bind_eq_bind, Option.bind_some, after?, if_true, hrest]
      cases typeOutcomes (u :: us) <;> rfl

theorem parameterTokensAfter_cons (p : String × TypeExpr) (ps : List (String × TypeExpr)) :
    parameterTokensAfter (p :: ps) = mark "," :: parameterTokens (p :: ps) := by
  rw [parameterTokensAfter, parameterTokens]

theorem parametersWithin_tokens {ps : List (String × TypeExpr)}
    (hn : ∀ p ∈ ps, isName p.1 = true) (hps : ∀ p ∈ ps, ReadAs p.2) {n : Nat} {rest : List Lexeme}
    (hfuel : 4 * (parameterTokens ps ++ mark ")" :: rest).length + 4 ≤ n) :
    parametersWithin n (parameterTokens ps ++ mark ")" :: rest) =
      (parameterOutcomes ps).map (·, rest) := by
  induction ps generalizing n with
  | nil =>
    obtain ⟨n, rfl⟩ : ∃ k, n = k + 1 := ⟨n - 1, by omega⟩
    rfl
  | cons p ps ih =>
    obtain ⟨x, t⟩ := p
    rw [List.forall_mem_cons] at hn hps
    obtain ⟨n, rfl⟩ : ∃ k, n = k + 1 := ⟨n - 1, by omega⟩
    rw [parameterTokens, List.cons_append, List.cons_append, List.append_assoc] at hfuel ⊢
    rw [List.length_cons, List.length_cons] at hfuel
    have ht : ReadAs t := hps.1
    have hx : word x ≠ mark ")" := by simp [word, mark]
    have hname : isName (word x).text = true := hn.1
    -- The type of a parameter ends at the parenthesis if it is the last one, else at a comma.
    rw [parametersWithin, if_neg hx, if_pos hname, parameterOutcomes]
    simp only [after?, if_true, Option.bind_eq_bind, Option.bind_some]
    cases ps with
    | nil =>
      rw [parameterTokensAfter, List.nil_append] at hfuel ⊢
      rw [ht.closed (by decide) (by decide) (by omega)]
      cases t.outcome true (some []) <;> rfl
    | cons q qs =>
      rw [parameterTokensAfter_cons, List.cons_append] at hfuel ⊢
      have hrest := ih hn.2 hps.2 (n := n) (by
        rw [List.length_append, List.length_cons] at hfuel
        omega)
      rw [ht.closed (by decide) (by decide) (by omega)]
      cases t.outcome true (some []) with
      | none => rfl
      | some ts =>
        simp only [Option.map_some, Option.bind_some, if_true, hrest]
        cases parameterOutcomes (q :: qs) <;> rfl

/-! ### Compound types -/

theorem readAs_reference {name : String} {arguments : List TypeExpr} (hn : isName name = true)
    (hk : keywords.lookup name = none) (hw : ∀ a ∈ arguments, Written a)
    (ha : ∀ a ∈ arguments, ReadAs a) : ReadAs (.reference name arguments) := by
  refine readAs_of_operand (.reference hn hk hw) rfl fun {n rest} hrest hfuel => ?_
  obtain ⟨n, rfl⟩ : ∃ k, n = k + 2 := ⟨n - 2, by omega⟩
  have hparen : word name ≠ mark "(" := by simp [word, mark]
  cases arguments with
  | nil =>
    have hafter : after? (mark "<") rest = none := by
      cases rest with
      | nil => rfl
      | cons l ls => rw [after?, if_neg fun he => hrest (by rw [he]; rfl)]
    rw [tokens, List.singleton_append, operandWithin, primaryWithin, if_neg hparen]
    simp [word, hk, hn, hafter, operand?, typeOutcomes]
  | cons a as =>
    rw [List.forall_mem_cons] at ha
    have htokens : (reference name (a :: as)).tokens ++ rest =
        word name :: mark "<" :: (a.tokens ++ (tokensAfter "," as ++ mark ">" :: rest)) := by
      rw [tokens]
      simp
    rw [htokens] at hfuel ⊢
    rw [List.length_cons, List.length_cons] at hfuel
    have harguments : typesWithin n (a.tokens ++ (tokensAfter "," as ++ mark ">" :: rest)) = _ :=
      typesWithin_arguments ha.1 ha.2 (by omega)
    rw [operandWithin, primaryWithin, if_neg hparen]
    simp only [word, hk, hn, if_true, after?, harguments, operand?]
    cases typeOutcomes (a :: as) <;> rfl

/-- A word before a colon is read alone, if at all. -/
theorem primaryWithin_colon (x : String) (ls : List Lexeme) (n : Nat) :
    primaryWithin n (word x :: mark ":" :: ls) = none ∨
      ∃ t, primaryWithin n (word x :: mark ":" :: ls) = some (t, mark ":" :: ls) := by
  cases n with
  | zero => exact .inl (by rw [primaryWithin])
  | succ n =>
    have hparen : word x ≠ mark "(" := by simp [word, mark]
    have hword : (word x).kind = .word := rfl
    rw [primaryWithin, if_neg hparen]
    simp only [if_pos hword]
    cases keywords.lookup (word x).text with
    | some t => exact .inr ⟨t, rfl⟩
    | none =>
      dsimp only
      split
      · exact .inr ⟨_, rfl⟩
      · exact .inl rfl

/-- What starts with a word before a colon is no type in parentheses. -/
theorem typeWithin_colon {x : String} {ls left : List Lexeme} {n : Nat} {t : TypeExpr}
    (h : typeWithin n (word x :: mark ":" :: ls) = some (t, left)) : left = mark ":" :: ls := by
  cases n with
  | zero => cases h
  | succ n =>
    have hstart : startsFunction (word x :: mark ":" :: ls) = false := by
      simp [startsFunction, word, mark]
    rw [typeWithin, hstart, if_neg Bool.false_ne_true] at h
    cases n with
    | zero => cases h
    | succ n =>
      rw [operandWithin] at h
      rcases primaryWithin_colon x ls n with hprimary | ⟨u, hprimary⟩
      · rw [hprimary] at h
        cases h
      · rw [hprimary] at h
        simp only [Option.bind_eq_bind, Option.bind_some, Option.pure_def,
          arrays_eq (by simp [mark] : (mark ":" :: ls).head? ≠ some (mark "[")), moreWithin, after?,
          if_neg (by simp [mark] : mark ":" ≠ mark "|")] at h
        cases h
        rfl

/-- A function after a bar cannot be read: its parameters are no type in parentheses. -/
theorem operandWithin_function (ps : List (String × TypeExpr)) (rest : List Lexeme) (n : Nat) :
    operandWithin n (mark "(" :: (parameterTokens ps ++ mark ")" :: rest)) = none := by
  match n with
  | 0 => rfl
  | 1 => rfl
  | n + 2 =>
    rw [operandWithin, primaryWithin, if_pos rfl]
    cases ps with
    | nil =>
      -- No level of the grammar takes a closing parenthesis.
      match n with
      | 0 => rfl
      | 1 => rfl
      | 2 => rfl
      | n + 3 => rfl
    | cons p ps =>
      obtain ⟨x, t⟩ := p
      rw [parameterTokens, List.cons_append, List.cons_append]
      cases htype : typeWithin n
          (word x :: mark ":" :: (t.tokens ++ parameterTokensAfter ps ++ mark ")" :: rest)) with
      | none => rfl
      | some r =>
        obtain ⟨u, left⟩ := r
        rw [typeWithin_colon htype]
        rfl

theorem readAs_function {parameters : List (String × TypeExpr)} {result : TypeExpr}
    (hn : ∀ p ∈ parameters, isName p.1 = true) (hp : ∀ p ∈ parameters, ReadAs p.2)
    (hr : ReadAs result) : ReadAs (.function parameters result) := by
  have htokens (rest : List Lexeme) : (function parameters result).tokens ++ rest = mark "(" ::
      (parameterTokens parameters ++ mark ")" :: mark "=>" :: (result.tokens ++ rest)) := by
    rw [tokens]
    simp
  refine ⟨fun h => Bool.noConfusion h, fun {n rest left more} hf hfuel => ?_,
    fun {n rest left more} hf hfuel => ?_⟩
  · rw [htokens] at hfuel ⊢
    obtain ⟨n, rfl⟩ : ∃ k, n = k + 1 := ⟨n - 1, by omega⟩
    have hstart (ls : List Lexeme) : startsFunction
        (mark "(" :: (parameterTokens parameters ++ mark ")" :: ls)) = true := by
      cases parameters with
      | nil => rfl
      | cons p ps => rfl
    rw [List.length_cons] at hfuel
    have hparameters : parametersWithin n _ = _ := parametersWithin_tokens hn hp
      (by omega : 4 * (_ ++ mark ")" :: mark "=>" :: (result.tokens ++ rest)).length + 4 ≤ n)
    rw [List.length_append, List.length_cons, List.length_cons] at hfuel
    have hresult := hr.start hf (n := n) (by omega)
    rw [typeWithin, if_pos (hstart _), List.drop_one, List.tail_cons, hparameters, outcome,
      if_pos rfl]
    cases parameterOutcomes parameters with
    | none => rfl
    | some ps =>
      simp only [Option.map_some, Option.bind_eq_bind, Option.bind_some, after?, if_true, hresult]
      cases result.outcome true more <;> rfl
  · rw [htokens] at hfuel ⊢
    obtain ⟨n, rfl⟩ : ∃ k, n = k + 1 := ⟨n - 1, by omega⟩
    rw [moreWithin, outcome]
    simp only [after?, if_true, operandWithin_function]
    rfl

/-- The alternatives after bars, and what is read after them. -/
theorem following_after {ms : List TypeExpr} (hms : ∀ m ∈ ms, ReadAs m) {rest left : List Lexeme}
    {more : Option (List TypeExpr)} (hf : Following rest more left) :
    Following (tokensAfter "|" ms ++ rest) (outcomesAfter ms more) left := by
  induction ms with
  | nil => exact hf
  | cons m ms ih =>
    rw [List.forall_mem_cons] at hms
    rw [tokensAfter, outcomesAfter, List.cons_append, List.append_assoc]
    refine ⟨?_, fun n hn => hms.1.next (ih hms.2) hn⟩
    rintro l ⟨⟩
    decide

theorem readAs_union {m : TypeExpr} {ms : List TypeExpr} (hm : ReadAs m)
    (hms : ∀ u ∈ ms, ReadAs u) : ReadAs (.union (m :: ms)) where
  operand h := Bool.noConfusion h
  start hf hn := by
    rw [tokens, List.append_assoc] at hn ⊢
    rw [outcome]
    exact hm.start (following_after hms hf) hn
  next hf hn := by
    rw [tokens, List.append_assoc] at hn ⊢
    rw [outcome]
    exact hm.next (following_after hms hf) hn

theorem readAs_of_written {t : TypeExpr} (h : Written t) : ReadAs t := by
  induction h with
  | keyword hw => exact readAs_keyword hw
  | array hi ih => exact readAs_array hi ih
  | function hn _ _ ihp ihr => exact readAs_function hn ihp ihr
  | reference hn hk ha iha => exact readAs_reference hn hk ha iha
  | union _ _ ihm ihms => exact readAs_union ihm ihms

end TypeReading

/-- The text of a type is read as its outcome. -/
theorem TypeExpr.read?_text {t : TypeExpr} (h : Written t) :
    read? t.text = (t.outcome true (some [])).map ofAlternatives := by
  obtain ⟨ts, hscan, hls⟩ := scan_text h
  have htype := (TypeReading.readAs_of_written h).start TypeReading.following_nil
    (n := TypeReading.fuel t.tokens) (by simp [TypeReading.fuel])
  rw [List.append_nil] at htype
  simp only [read?, hscan, hls, htype]
  cases t.outcome true (some []) <;> rfl

end TypeLoom.Declaration
