/-!
# Signed words of 64 bits

The range of integers that schema values and configurations can hold.
-/

namespace TypeLoom.Decimal

/-- The least integer above the range, which starts at its negative. -/
def signed64Bound : Int := 0x8000000000000000

/-- An integer that is in range. -/
def signed64? (n : Int) : Option Int :=
  if -signed64Bound ≤ n && n < signed64Bound then some n else none

end TypeLoom.Decimal
