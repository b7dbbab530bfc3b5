import TypeLoom.Decimal.Signed64
import TypeLoom.Toml.Value

/-!
# Numbers, dates and truth values

Each reader takes a whole word: a run of characters that a number, a date or a bare word can be
made of. Underscores may stand between digits. Integers fit 64 bits, and a decimal too large for a
double is refused.
-/

namespace TypeLoom.Toml.Scalar

/-- Digits of a class with single underscores between them, without the underscores. -/
def digits? (isDigit : Char → Bool) : List Char → Option (List Char)
  | [] => none
  | [c] => if isDigit c then some [c] else none
  | c :: '_' :: cs => if isDigit c then (digits? isDigit cs).map (c :: ·) else none
  | c :: cs => if isDigit c then (digits? isDigit cs).map (c :: ·) else none

def digitValue (c : Char) : Nat :=
  if c.isDigit then c.toNat - '0'.toNat
  else if 'a' ≤ c && c ≤ 'f' then c.toNat - 'a'.toNat + 10
  else c.toNat - 'A'.toNat + 10

def numberOf (base : Nat) (cs : List Char) : Nat :=
  cs.foldl (fun n c => base * n + digitValue c) 0

def isHexDigit (c : Char) : Bool := c.isDigit || ('a' ≤ c && c ≤ 'f') || ('A' ≤ c && c ≤ 'F')

def sign : List Char → Bool × List Char
  | '-' :: cs => (true, cs)
  | '+' :: cs => (false, cs)
  | cs => (false, cs)

/-- The digits of a decimal integer without sign; no zero in front. -/
def decimal? (cs : List Char) : Option (List Char) := do
  let ds ← digits? Char.isDigit cs
  if cs.head? == some '0' && cs != ['0'] then none else some ds

def integer? (cs : List Char) : Option Int :=
  match cs with
  | '0' :: 'x' :: ds => (digits? isHexDigit ds).bind fun ds => Decimal.signed64? (numberOf 16 ds)
  | '0' :: 'o' :: ds =>
    (digits? (fun c => '0' ≤ c && c ≤ '7') ds).bind fun ds => Decimal.signed64? (numberOf 8 ds)
  | '0' :: 'b' :: ds =>
    (digits? (fun c => c == '0' || c == '1') ds).bind fun ds => Decimal.signed64? (numberOf 2 ds)
  | cs =>
    let (negative, ds) := sign cs
    (decimal? ds).bind fun ds =>
      let n : Int := numberOf 10 ds
      Decimal.signed64? (if negative then -n else n)

/-- The text before and after the first character of a class. -/
def cutFirst? (p : Char → Bool) (cs : List Char) : Option (List Char × List Char) :=
  let before := cs.takeWhile (!p ·)
  if before.length == cs.length then none else some (before, cs.drop (before.length + 1))

def exponent? (cs : List Char) : Option Int :=
  let (negative, ds) := sign cs
  (digits? Char.isDigit ds).map fun ds =>
    let n : Int := numberOf 10 ds
    if negative then -n else n

/-- A number with a fraction, an exponent or both. -/
def finite? (cs : List Char) : Option Decimal.Binary64 := do
  let (negative, cs) := sign cs
  let (mantissa, exponent) ← match cutFirst? (fun c => c == 'e' || c == 'E') cs with
    | some (m, e) => (exponent? e).map fun e => (m, some e)
    | none => some (cs, none)
  let (whole, fraction) ← match cutFirst? (· == '.') mantissa with
    | some (w, f) => do pure (← decimal? w, ← digits? Char.isDigit f)
    | none => if exponent.isNone then none else (decimal? mantissa).map (·, [])
  let x := Decimal.ofDecimal negative (numberOf 10 (whole ++ fraction))
    (exponent.getD 0 - fraction.length)
  if x == .infinite false then none else some x

def float? (cs : List Char) : Option Decimal.Binary64 :=
  let (negative, word) := sign cs
  if word == "inf".toList then some (.infinite negative)
  else if word == "nan".toList then some .notANumber
  else finite? cs

def two? (a b : Char) : Option Nat :=
  if a.isDigit && b.isDigit then some (numberOf 10 [a, b]) else none

def isLeap (y : Nat) : Bool := y % 4 == 0 && (y % 100 != 0 || y % 400 == 0)

def daysIn (y m : Nat) : Nat :=
  if m == 2 then (if isLeap y then 29 else 28)
  else if [4, 6, 9, 11].contains m then 30 else 31

/-- A date at the start of a text. -/
def date? : List Char → Option (Date × List Char)
  | a :: b :: c :: d :: '-' :: e :: f :: '-' :: g :: h :: rest => do
    let high ← two? a b
    let low ← two? c d
    let year := 100 * high + low
    let month ← two? e f
    let day ← two? g h
    if 1 ≤ month && month ≤ 12 && 1 ≤ day && day ≤ daysIn year month then
      some (⟨year, month, day⟩, rest)
    else none
  | _ => none

/-- Nanoseconds from the digits of a fraction; digits after the ninth are dropped. -/
def nanoseconds (ds : List Char) : Nat :=
  let ds := ds.take 9
  numberOf 10 ds * Nat.pow 10 (9 - ds.length)

/-- A time at the start of a text. -/
def time? : List Char → Option (Time × List Char)
  | a :: b :: ':' :: c :: d :: ':' :: e :: f :: rest => do
    let hour ← two? a b
    let minute ← two? c d
    let second ← two? e f
    if 23 < hour || 59 < minute || 60 < second then none
    else match rest with
      | '.' :: more =>
        let ds := more.takeWhile Char.isDigit
        if ds.isEmpty then none
        else some (⟨hour, minute, second, nanoseconds ds⟩, more.drop ds.length)
      | rest => some (⟨hour, minute, second, 0⟩, rest)
  | _ => none

/-- An offset that is a whole text. -/
def offset? : List Char → Option Offset
  | ['Z'] => some .utc
  | ['z'] => some .utc
  | [s, a, b, ':', c, d] => do
    let hours ← two? a b
    let minutes ← two? c d
    let n : Int := 60 * hours + minutes
    if 23 < hours || 59 < minutes then none
    else if s == '+' then some (.minutes n)
    else if s == '-' then some (.minutes (-n))
    else none
  | _ => none

/-- Characters between a date and a time. -/
def isDateSeparator (c : Char) : Bool := c == 'T' || c == 't' || c == ' '

def datetime? (cs : List Char) : Option Datetime :=
  match date? cs with
  | some (date, []) => some ⟨some date, none, none⟩
  | some (date, c :: rest) =>
    if isDateSeparator c then
      match time? rest with
      | some (time, []) => some ⟨some date, some time, none⟩
      | some (time, zone) => (offset? zone).map fun o => ⟨some date, some time, some o⟩
      | none => none
    else none
  | none =>
    match time? cs with
    | some (time, []) => some ⟨none, some time, none⟩
    | _ => none

/-- The value that a whole word stands for. -/
def value? (cs : List Char) : Option Value :=
  if cs == "true".toList then some (.boolean true)
  else if cs == "false".toList then some (.boolean false)
  else match integer? cs with
    | some n => some (.integer n)
    | none => match float? cs with
      | some x => some (.float x)
      | none => (datetime? cs).map .datetime

def isWordChar (c : Char) : Bool := c.isAlphanum || "_+-.:".toList.contains c

/-- Cuts the word at the start of a text. A date may be followed by one blank and a time. -/
def cutWord (cs : List Char) : List Char × List Char :=
  let word := cs.takeWhile isWordChar
  let rest := cs.dropWhile isWordChar
  match date? word, rest with
  | some (_, []), ' ' :: a :: more =>
    if a.isDigit then
      (word ++ ' ' :: (a :: more).takeWhile isWordChar, (a :: more).dropWhile isWordChar)
    else (word, rest)
  | _, _ => (word, rest)

end TypeLoom.Toml.Scalar
