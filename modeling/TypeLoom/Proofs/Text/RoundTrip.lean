import TypeLoom.Text.Utf8

/-!
# Bytes of a text read back

Main statement: the bytes of a text are read as that text.
-/

namespace TypeLoom.Text.Utf8

/-- A byte of a sequence, not its first, gives six bits. -/
theorem continuation_ofNat {bits seen n x : Nat} {low high : UInt8} {bs : List UInt8} (hx : x < 64)
    (hlow : low.toNat ≤ x + 0x80) (hhigh : x + 0x80 ≤ high.toNat) :
    continuation bits seen (n + 1) low high (UInt8.ofNat (x + 0x80) :: bs) =
      continuation (bits * 64 + x) (seen + 1) n 0x80 0xBF bs := by
  have hb : (UInt8.ofNat (x + 0x80)).toNat = x + 0x80 :=
    UInt8.toNat_ofNat_of_lt (show _ < 256 by omega)
  rw [continuation, if_pos, hb]
  · congr 1
    omega
  · simp only [Bool.and_eq_true, decide_eq_true_eq, UInt8.le_iff_toNat_le, hb]
    exact ⟨hlow, hhigh⟩

theorem lead?_one {x : Nat} (hx : x < 0x80) : lead? (UInt8.ofNat x) = some ⟨x, 0, 0x80, 0xBF⟩ := by
  have hb : (UInt8.ofNat x).toNat = x := UInt8.toNat_ofNat_of_lt (show _ < 256 by omega)
  simp only [lead?, hb, hx, if_true]

theorem lead?_two {x : Nat} (hx : 2 ≤ x) (hx' : x < 0x20) :
    lead? (UInt8.ofNat (x + 0xC0)) = some ⟨x, 1, 0x80, 0xBF⟩ := by
  have hb : (UInt8.ofNat (x + 0xC0)).toNat = x + 0xC0 :=
    UInt8.toNat_ofNat_of_lt (show _ < 256 by omega)
  simp only [lead?, hb]
  rw [if_neg (by omega), if_neg (by omega), if_pos (by omega)]
  congr 2
  omega

theorem lead?_three {x : Nat} (hx : x < 0x10) : lead? (UInt8.ofNat (x + 0xE0)) =
    some ⟨x, 2, if x = 0 then 0xA0 else 0x80, if x = 0xD then 0x9F else 0xBF⟩ := by
  have hb : (UInt8.ofNat (x + 0xE0)).toNat = x + 0xE0 :=
    UInt8.toNat_ofNat_of_lt (show _ < 256 by omega)
  simp only [lead?, hb]
  rw [if_neg (by omega), if_neg (by omega), if_neg (by omega), if_pos (by omega)]
  have hbits : (x + 0xE0) % 0x10 = x := by omega
  simp [hbits]

theorem lead?_four {x : Nat} (hx : x < 5) : lead? (UInt8.ofNat (x + 0xF0)) =
    some ⟨x, 3, if x = 0 then 0x90 else 0x80, if x = 4 then 0x8F else 0xBF⟩ := by
  have hb : (UInt8.ofNat (x + 0xF0)).toNat = x + 0xF0 :=
    UInt8.toNat_ofNat_of_lt (show _ < 256 by omega)
  simp only [lead?, hb]
  rw [if_neg (by omega), if_neg (by omega), if_neg (by omega), if_neg (by omega), if_pos (by omega)]
  have hbits : (x + 0xF0) % 0x08 = x := by omega
  simp [hbits]

/-- The bytes of a character are read as that character, whatever follows them. -/
theorem decodeChar_utf8EncodeChar (c : Char) (rest : List UInt8) :
    ∃ b bs, String.utf8EncodeChar c = b :: bs ∧ decodeChar b (bs ++ rest) = .ok (c, rest) := by
  have hvalid : c.val.toNat < 0xD800 ∨ 0xDFFF < c.val.toNat ∧ c.val.toNat < 0x110000 := c.valid
  have hc : Char.ofNat c.val.toNat = c := Char.ofNat_toNat c
  simp only [String.utf8EncodeChar]
  generalize c.val.toNat = n at hvalid hc
  split
  · refine ⟨_, _, rfl, ?_⟩
    rw [decodeChar, lead?_one (by omega)]
    simp only [continuation, List.nil_append, hc]
  · split
    · refine ⟨_, _, rfl, ?_⟩
      have hn : n / 64 % 0x20 * 64 + n % 0x40 = n := by omega
      rw [decodeChar, lead?_two (by omega) (by omega), List.cons_append]
      dsimp only
      rw [continuation_ofNat (by omega) (by simp) (by simp; omega), continuation, hn, ← hc]
      rfl
    · split
      · refine ⟨_, _, rfl, ?_⟩
        have hn : (n / 4096 % 0x10 * 64 + n / 64 % 0x40) * 64 + n % 0x40 = n := by omega
        rw [decodeChar, lead?_three (by omega), List.cons_append, List.cons_append]
        dsimp only
        rw [continuation_ofNat (by omega) ?_ ?_, continuation_ofNat (by omega) (by simp)
          (by simp; omega), continuation, hn, ← hc]
        · rfl
        · split
          · simp
            omega
          · simp
        · split
          · simp
            omega
          · simp
            omega
      · refine ⟨_, _, rfl, ?_⟩
        have hn : ((n / 262144 % 0x08 * 64 + n / 4096 % 0x40) * 64 + n / 64 % 0x40) * 64 + n % 0x40 =
            n := by omega
        rw [decodeChar, lead?_four (by omega), List.cons_append, List.cons_append, List.cons_append]
        dsimp only
        rw [continuation_ofNat (by omega) ?_ ?_, continuation_ofNat (by omega) (by simp)
          (by simp; omega), continuation_ofNat (by omega) (by simp) (by simp; omega), continuation,
          hn, ← hc]
        · rfl
        · split
          · simp
            omega
          · simp
        · split
          · simp
            omega
          · simp
            omega

theorem decodeFrom_encode (index : Nat) (cs : List Char) : decodeFrom index (encode cs) = .ok cs := by
  induction cs generalizing index with
  | nil => rw [encode, List.flatMap_nil, decodeFrom]
  | cons c cs ih =>
    obtain ⟨b, bs, hb, hdecode⟩ := decodeChar_utf8EncodeChar c (encode cs)
    have hbytes : encode (c :: cs) = b :: (bs ++ encode cs) := by
      rw [encode, List.flatMap_cons, hb]
      rfl
    rw [hbytes, decodeFrom]
    split
    · rename_i hd
      rw [hdecode] at hd
      cases hd
    · rename_i hd
      rw [hdecode] at hd
      cases hd
      rw [ih]

/-- The bytes of a text are read as that text. -/
theorem decode_encode (cs : List Char) : decode (encode cs) = .ok cs := decodeFrom_encode 0 cs

end TypeLoom.Text.Utf8
