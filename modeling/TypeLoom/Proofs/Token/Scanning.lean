import TypeLoom.TypeScript.Token
import Mathlib.Data.List.Basic

/-!
# Scanning in pieces

`Scans p cs ts q rest` says that from the place `p`, with the text `cs` still to come, the tokens
`ts` are cut, and that this leads to the place `q` with `rest` to come. A piece is judged with all
that follows it present, so that pieces can be put together without splitting a longest match.
-/

namespace TypeLoom.TypeScript.Token

/-- Every token has a character. -/
theorem punctuatorLength_pos {cs : List Char} {n : Nat} (h : punctuatorLength cs = some n) :
    0 < n := by
  unfold punctuatorLength at h
  split at h
  · split at h <;> · cases h; decide
  · obtain ⟨p, hp, rfl⟩ := Option.map_eq_some_iff.mp h
    have hall : ∀ q ∈ punctuators, 0 < q.length := by decide
    exact hall p (List.mem_of_find?_eq_some hp)

theorem numberLength_pos {c : Char} {cs : List Char} (hc : c.isDigit = true) :
    0 < numberLength (c :: cs) := by
  have hd : 0 < numberLength.decimal (c :: cs) := by
    have : 0 < digitsLength (c :: cs) := by simp [digitsLength, isDigitOrGap, hc]
    show 0 < digitsLength (c :: cs) + _
    omega
  unfold numberLength
  split
  · split
    · omega
    · exact hd
  · exact hd

theorem numberLength_point_pos {d : Char} {cs : List Char} : 0 < numberLength ('.' :: d :: cs) := by
  have : digitsLength ('.' :: d :: cs) = 0 := by simp [digitsLength, isDigitOrGap]
  show 0 < digitsLength ('.' :: d :: cs) + (fractionLength _ + _)
  simp only [this, List.drop_zero, fractionLength, List.head?_cons, beq_self_eq_true, if_true]
  omega

theorem cut_pos {operand hole : Bool} {cs : List Char} {k : TokenKind} {n : Nat}
    (h : cut operand hole cs = some (k, n)) : 0 < n := by
  unfold cut at h
  split at h
  · cases h; omega
  · obtain ⟨m, _, he⟩ := Option.map_eq_some_iff.mp h
    cases he; omega
  · split at h
    · obtain ⟨m, _, he⟩ := Option.map_eq_some_iff.mp h
      cases he; omega
    · obtain ⟨m, hm, he⟩ := Option.map_eq_some_iff.mp h
      cases he; exact punctuatorLength_pos hm
  · obtain ⟨m, _, he⟩ := Option.map_eq_some_iff.mp h
    cases he; omega
  · split at h
    · obtain ⟨m, _, he⟩ := Option.map_eq_some_iff.mp h
      cases he; omega
    · cases h; omega
  · split at h
    · cases h
    · cases h; omega
  · split at h
    · cases h; exact numberLength_point_pos
    · obtain ⟨m, hm, he⟩ := Option.map_eq_some_iff.mp h
      cases he; exact punctuatorLength_pos hm
  · split at h
    · obtain ⟨m, _, he⟩ := Option.map_eq_some_iff.mp h
      cases he; omega
    · split at h
      · cases h; exact numberLength_pos ‹_›
      · split at h
        · cases h
          rename_i hs
          simp only [isNameStart, Bool.and_eq_true] at hs
          simp [hs.1]
        · obtain ⟨m, hm, he⟩ := Option.map_eq_some_iff.mp h
          cases he; exact punctuatorLength_pos hm
  · cases h

/-- The characters that tell what a token is before its class is asked for. -/
def markers : List Char := ['/', '\x60', '\x7d', '#', '.']

theorem cut_plain {operand hole : Bool} {c : Char} {rest : List Char} (hc : c ∉ markers) :
    cut operand hole (c :: rest) =
      if c == '\'' || c == '"' then
        (stringLength c (rest.length + 1) rest).map fun n => (.string, n + 1)
      else if c.isDigit then some (.number, numberLength (c :: rest))
      else if isNameStart c then some (.word, ((c :: rest).takeWhile isNameChar).length)
      else (punctuatorLength (c :: rest)).map fun n => (.punctuator, n) := by
  simp only [markers, List.mem_cons, List.not_mem_nil, or_false, not_or] at hc
  rw [cut]
  all_goals simp_all

theorem take_kind (p : Place) (k : TokenKind) (n : Nat) (cs : List Char) :
    (take p k n cs).1.kind = k := by
  unfold take
  dsimp only
  split <;> rfl

theorem take_text (p : Place) (k : TokenKind) (n : Nat) (cs : List Char) :
    (take p k n cs).1.text = String.ofList (cs.take n) := by
  unfold take
  dsimp only
  split <;> rfl

/-- Cutting tokens off a text, blank by blank and token by token. -/
inductive Scans : Place → List Char → List Token → Place → List Char → Prop where
  | done {p cs} : Scans p cs [] p cs
  | space {p c cs ts q rest} (hc : isSpace c = true) (h : Scans (p.afterSpace c) cs ts q rest) :
      Scans p (c :: cs) ts q rest
  | token {p c cs k n ts q rest} (hc : isSpace c = false)
      (hk : cut p.operand p.inHole (c :: cs) = some (k, n))
      (h : Scans (take p k n (c :: cs)).2 ((c :: cs).drop n) ts q rest) :
      Scans p (c :: cs) ((take p k n (c :: cs)).1 :: ts) q rest

/-- Blanks are passed over one by one. -/
theorem scanFrom_space (fuel : Nat) (p : Place) (c : Char) (cs : List Char)
    (hc : isSpace c = true) :
    scanFrom (fuel + 1) p (c :: cs) = scanFrom (fuel + 1) (p.afterSpace c) cs := by
  simp only [scanFrom, skipSpace, hc, if_true]

theorem scanFrom_token (fuel : Nat) (p : Place) (c : Char) (cs : List Char) (k : TokenKind)
    (n : Nat) (hc : isSpace c = false) (hk : cut p.operand p.inHole (c :: cs) = some (k, n)) :
    scanFrom (fuel + 1) p (c :: cs) =
      (scanFrom fuel (take p k n (c :: cs)).2 ((c :: cs).drop n)).map
        ((take p k n (c :: cs)).1 :: ·) := by
  simp only [scanFrom, skipSpace, hc, hk, Bool.false_eq_true, if_false]

/-- Cutting a text to its end is scanning it in one piece. -/
theorem scanFrom_of_scans {p q : Place} {cs rest : List Char} {ts : List Token}
    (h : Scans p cs ts q rest) (hr : rest = []) (fuel : Nat) (hf : cs.length < fuel) :
    scanFrom fuel p cs = .ok ts := by
  induction h generalizing fuel with
  | done =>
    subst hr
    obtain ⟨f, rfl⟩ := Nat.exists_eq_succ_of_ne_zero (by omega : fuel ≠ 0)
    rfl
  | @space p c cs ts q rest hc _ ih =>
    obtain ⟨f, rfl⟩ := Nat.exists_eq_succ_of_ne_zero (by omega : fuel ≠ 0)
    rw [scanFrom_space f p c cs hc]
    exact ih hr _ (by simp at hf; omega)
  | @token p c cs k n ts q rest hc hk _ ih =>
    obtain ⟨f, rfl⟩ := Nat.exists_eq_succ_of_ne_zero (by omega : fuel ≠ 0)
    have hn := cut_pos hk
    rw [scanFrom_token f p c cs k n hc hk,
      ih hr f (by simp only [List.length_drop, List.length_cons] at hf ⊢; omega)]
    rfl

/-- A module that is cut into tokens is a text without null characters. -/
theorem scan_eq_ok_iff {cs : List Char} {ts : List Token} :
    scan cs = .ok ts ↔ '\x00' ∉ cs ∧ scanText cs = .ok ts := by
  unfold scan
  split
  · next h => simp [List.contains_iff_mem.mp h]
  · next h => simp [mt List.contains_iff_mem.mpr h]

end TypeLoom.TypeScript.Token
