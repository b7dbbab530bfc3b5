/-!
# Double-precision numbers as exact data

A finite number is `mantissa * 2 ^ exponent`, in the normal form of the binary format with 53
digits and least exponent -1074. `ofDecimal` rounds a decimal to the nearest number, a tie to the
even mantissa. `shortest` gives the fewest decimal digits that round back to the number; of the
candidates with that many digits it takes the nearest, and the larger one of two equally near.
All arithmetic is exact.
-/

namespace TypeLoom.Decimal

inductive Binary64 where
  | finite (negative : Bool) (mantissa : Nat) (exponent : Int)
  | infinite (negative : Bool)
  | notANumber
  deriving DecidableEq, Inhabited, Repr

/-- The quotient rounded to the nearest natural number, a tie to the even one. -/
def roundDiv (num den : Nat) : Nat :=
  let q := num / den
  let r := 2 * (num % den)
  if r < den then q
  else if den < r then q + 1
  else if q % 2 == 0 then q else q + 1

/-- `b ^ e` as a fraction. -/
def powFraction (b : Nat) (e : Int) : Nat × Nat :=
  if 0 ≤ e then (Nat.pow b e.toNat, 1) else (1, Nat.pow b (-e).toNat)

/-- The `l` with `2 ^ l ≤ num / den < 2 ^ (l + 1)`. -/
def floorLog2 (num den : Nat) : Int :=
  let l : Int := (Nat.log2 num : Int) - (Nat.log2 den : Int)
  let (p, q) := powFraction 2 l
  if num * q < den * p then l - 1 else l

def maxExponent : Int := 971

def minExponent : Int := -1074

/-- The least mantissa with all 53 digits. -/
def leastFull : Nat := 0x10000000000000

/-- The number nearest to `num / den`. -/
def ofFraction (negative : Bool) (num den : Nat) : Binary64 :=
  if num == 0 then .finite negative 0 minExponent
  else
    let e := max (floorLog2 num den - 52) minExponent
    let (p, q) := powFraction 2 e
    let m := roundDiv (num * q) (den * p)
    let (m, e) := if m == leastFull * 2 then (leastFull, e + 1) else (m, e)
    if maxExponent < e then .infinite negative else .finite negative m e

/-- The number nearest to `digits * 10 ^ exponent`. Magnitudes far outside the range are settled
by their size alone. -/
def ofDecimal (negative : Bool) (digits : Nat) (exponent : Int) : Binary64 :=
  let size : Int := (Nat.toDigits 10 digits).length + exponent
  if digits == 0 then ofFraction negative 0 1
  else if 400 < size then .infinite negative
  else if size < -400 then ofFraction negative 0 1
  else
    let (p, q) := powFraction 10 exponent
    ofFraction negative (digits * p) q

/-- The interval of reals that round to a number, as numerators over one denominator: its ends,
the number itself, and whether the ends belong to it. -/
structure RoundingInterval where
  low : Nat
  value : Nat
  high : Nat
  den : Nat
  closed : Bool

def roundingInterval (m : Nat) (e : Int) : RoundingInterval :=
  let (p, q) := powFraction 2 (e - 2)
  let below := if m == leastFull && minExponent < e then 1 else 2
  { low := (4 * m - below) * p, value := 4 * m * p, high := (4 * m + 2) * p, den := q,
    closed := m % 2 == 0 }

/-- Whether `n * 10 ^ k` lies in the interval. -/
def RoundingInterval.holds (i : RoundingInterval) (n : Nat) (k : Int) : Bool :=
  let (p, q) := powFraction 10 k
  let x := n * p * i.den
  if i.closed then i.low * q ≤ x && x ≤ i.high * q else i.low * q < x && x < i.high * q

/-- The `k` with `10 ^ k ≤ num / den < 10 ^ (k + 1)`, searched from an estimate. -/
def floorLog10 (num den : Nat) : Int :=
  let k : Int := ((Nat.toDigits 10 num).length : Int) - ((Nat.toDigits 10 den).length : Int)
  let (p, q) := powFraction 10 k
  if num * q < den * p then k - 1 else k

/-- The neighbours of the value on the grid of multiples of `10 ^ k`, nearest first. -/
def RoundingInterval.neighbours (i : RoundingInterval) (k : Int) : List Nat :=
  let (p, q) := powFraction 10 k
  let num := i.value * q
  let den := i.den * p
  let n := num / den
  if 2 * (num % den) < den then [n, n + 1] else [n + 1, n]

/-- The first grid, from the coarsest, with a neighbour inside the interval. -/
def RoundingInterval.search (i : RoundingInterval) (top : Int) : Nat → Nat → Nat × Int
  | 0, count =>
    let k := top + 1 - count
    ((i.neighbours k).headD 0, k)
  | fuel + 1, count =>
    let k := top + 1 - count
    match (i.neighbours k).find? (i.holds · k) with
    | some n => (n, k)
    | none => i.search top fuel (count + 1)

/-- Shortest decimal `n * 10 ^ k` of a positive number. Seventeen digits always suffice. -/
def shortest (m : Nat) (e : Int) : Nat × Int :=
  let i := roundingInterval m e
  i.search (floorLog10 i.value i.den) 16 1

/-- The digits of `n * 10 ^ k` in positional notation. -/
def positional (n : Nat) (k : Int) : String :=
  let digits := Nat.toDigits 10 n
  let point : Int := digits.length + k
  if 0 ≤ k then String.ofList (digits ++ List.replicate k.toNat '0')
  else if 0 < point then
    String.ofList (digits.take point.toNat ++ '.' :: digits.drop point.toNat)
  else String.ofList ('0' :: '.' :: List.replicate (-point).toNat '0' ++ digits)

/-- Removes trailing zeros of the digits, as long as fuel lasts. -/
def dropZeros : Nat → Nat → Int → Nat × Int
  | 0, n, k => (n, k)
  | fuel + 1, n, k => if n % 10 == 0 && n != 0 then dropZeros fuel (n / 10) (k + 1) else (n, k)

/-- The text of a number: shortest digits, never an exponent. -/
def Binary64.text : Binary64 → String
  | .notANumber => "NaN"
  | .infinite negative => if negative then "-inf" else "inf"
  | .finite negative m e =>
    let sign := if negative then "-" else ""
    if m == 0 then sign ++ "0"
    else
      let (n, k) := shortest m e
      let (n, k) := dropZeros 20 n k
      sign ++ positional n k

end TypeLoom.Decimal
