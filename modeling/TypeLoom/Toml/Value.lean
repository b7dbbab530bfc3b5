import TypeLoom.Decimal.Binary64

/-!
# Configuration values

The values of a TOML document. Tables keep the order in which their keys were written.
-/

namespace TypeLoom.Toml

structure Date where
  year : Nat
  month : Nat
  day : Nat
  deriving DecidableEq, Inhabited, Repr

structure Time where
  hour : Nat
  minute : Nat
  second : Nat
  nanosecond : Nat
  deriving DecidableEq, Inhabited, Repr

inductive Offset where
  | utc
  | minutes (value : Int)
  deriving DecidableEq, Inhabited, Repr

/-- A date, a time or both; an offset only with both. -/
structure Datetime where
  date : Option Date
  time : Option Time
  offset : Option Offset
  deriving DecidableEq, Inhabited, Repr

inductive Value where
  | string (text : String)
  | integer (value : Int)
  | float (value : Decimal.Binary64)
  | boolean (value : Bool)
  | datetime (value : Datetime)
  | array (items : List Value)
  | table (entries : List (String × Value))
  deriving Inhabited, Repr

/-- Decimal digits of a number, at least `width` of them. -/
def digitsText (width n : Nat) : String :=
  let digits := Nat.toDigits 10 n
  String.ofList (List.replicate (width - digits.length) '0' ++ digits)

def Date.text (d : Date) : String :=
  digitsText 4 d.year ++ "-" ++ digitsText 2 d.month ++ "-" ++ digitsText 2 d.day

/-- The fraction of a second is written without trailing zeros. -/
def Time.text (t : Time) : String :=
  let fraction := ((digitsText 9 t.nanosecond).toList.reverse.dropWhile (· == '0')).reverse
  digitsText 2 t.hour ++ ":" ++ digitsText 2 t.minute ++ ":" ++ digitsText 2 t.second ++
    if t.nanosecond == 0 then "" else "." ++ String.ofList fraction

def Offset.text : Offset → String
  | .utc => "Z"
  | .minutes m =>
    let n := m.natAbs
    (if m < 0 then "-" else "+") ++ digitsText 2 (n / 60) ++ ":" ++ digitsText 2 (n % 60)

def Datetime.text (d : Datetime) : String :=
  (d.date.elim "" Date.text) ++ (if d.date.isSome && d.time.isSome then "T" else "") ++
    (d.time.elim "" Time.text) ++ (d.offset.elim "" Offset.text)

/-- Entries by ascending key. -/
def byKey {α : Type} (entries : List (String × α)) : List (String × α) :=
  entries.mergeSort fun a b => decide (a.1 ≤ b.1)

end TypeLoom.Toml
