/-!
# The bytes of a text

A text is stored as UTF-8. Reading is strict: a byte that cannot continue a well-formed sequence is
an error at the start of that sequence, with the number of bytes that were still possible. To show
bytes that may be no text, each such sequence is replaced by one mark.
-/

namespace TypeLoom.Text.Utf8

def encode (cs : List Char) : List UInt8 := cs.flatMap String.utf8EncodeChar

inductive Fault where
  | invalid (length : Nat)
  | incomplete
  deriving DecidableEq, Inhabited, Repr

/-- What is wrong with bytes, and where the offending sequence starts. -/
structure DecodeError where
  index : Nat
  fault : Fault
  deriving DecidableEq, Inhabited, Repr

def DecodeError.message (e : DecodeError) : String :=
  match e.fault with
  | .invalid n => s!"invalid utf-8 sequence of {n} bytes from index {e.index}"
  | .incomplete => s!"incomplete utf-8 byte sequence from index {e.index}"

/-- What a first byte announces: the bits it contributes, how many bytes follow, and the range of
the next one. The ranges exclude overlong forms, surrogates and code points past the last one. -/
structure Lead where
  bits : Nat
  following : Nat
  low : UInt8
  high : UInt8
  deriving DecidableEq, Repr

def lead? (b : UInt8) : Option Lead :=
  let n := b.toNat
  if n < 0x80 then some ⟨n, 0, 0x80, 0xBF⟩
  else if n < 0xC2 then none
  else if n < 0xE0 then some ⟨n % 0x20, 1, 0x80, 0xBF⟩
  else if n < 0xF0 then
    some ⟨n % 0x10, 2, if n == 0xE0 then 0xA0 else 0x80, if n == 0xED then 0x9F else 0xBF⟩
  else if n < 0xF5 then
    some ⟨n % 0x08, 3, if n == 0xF0 then 0x90 else 0x80, if n == 0xF4 then 0x8F else 0xBF⟩
  else none

/-- Reads the bytes that follow a first one, of which `seen` have been read with the first. -/
def continuation (bits seen : Nat) :
    Nat → UInt8 → UInt8 → List UInt8 → Except Fault (Nat × List UInt8)
  | 0, _, _, bs => .ok (bits, bs)
  | _ + 1, _, _, [] => .error .incomplete
  | n + 1, low, high, b :: bs =>
    if low ≤ b && b ≤ high then
      continuation (bits * 0x40 + b.toNat % 0x40) (seen + 1) n 0x80 0xBF bs
    else .error (.invalid seen)

/-- Reads one character. -/
def decodeChar (b : UInt8) (bs : List UInt8) : Except Fault (Char × List UInt8) :=
  match lead? b with
  | none => .error (.invalid 1)
  | some l =>
    match continuation l.bits 1 l.following l.low l.high bs with
    | .ok (n, rest) => .ok (Char.ofNat n, rest)
    | .error e => .error e

theorem length_of_continuation {bits seen n : Nat} {low high : UInt8} {bs rest : List UInt8}
    {value : Nat} (h : continuation bits seen n low high bs = .ok (value, rest)) :
    rest.length ≤ bs.length := by
  induction n generalizing bits seen low high bs with
  | zero =>
    simp only [continuation, Except.ok.injEq, Prod.mk.injEq] at h
    exact Nat.le_of_eq (congrArg List.length h.2.symm)
  | succ n ih =>
    cases bs with
    | nil => simp [continuation] at h
    | cons b bs =>
      rw [continuation] at h
      split at h
      · exact Nat.le_succ_of_le (ih h)
      · cases h

theorem length_of_decodeChar {b : UInt8} {bs rest : List UInt8} {c : Char}
    (h : decodeChar b bs = .ok (c, rest)) : rest.length ≤ bs.length := by
  unfold decodeChar at h
  split at h
  · cases h
  · split at h
    · rename_i hc
      cases h
      exact length_of_continuation hc
    · cases h

/-- Reads characters from the byte at `index` on. -/
def decodeFrom (index : Nat) (bytes : List UInt8) : Except DecodeError (List Char) :=
  match bytes with
  | [] => .ok []
  | b :: bs =>
    match _h : decodeChar b bs with
    | .error fault => .error ⟨index, fault⟩
    | .ok (c, rest) =>
      match decodeFrom (index + c.utf8Size) rest with
      | .ok cs => .ok (c :: cs)
      | .error e => .error e
termination_by bytes.length
decreasing_by
  have := length_of_decodeChar _h
  simp only [List.length_cons]
  omega

/-- The characters of bytes. -/
def decode (bytes : List UInt8) : Except DecodeError (List Char) := decodeFrom 0 bytes

/-- The characters that bytes are shown as, with a mark for each sequence that is no character. Every
step takes a byte, so their number is fuel enough. -/
def decodeLossy : Nat → List UInt8 → List Char
  | _, [] => []
  | 0, _ => []
  | fuel + 1, b :: bs =>
    match decodeChar b bs with
    | .ok (c, rest) => c :: decodeLossy fuel rest
    | .error (.invalid n) => '\uFFFD' :: decodeLossy fuel (bs.drop (n - 1))
    | .error .incomplete => ['\uFFFD']

end TypeLoom.Text.Utf8
