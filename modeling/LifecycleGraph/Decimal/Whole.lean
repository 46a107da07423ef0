import LifecycleGraph.Decimal.Shortest

/-!
# Whole numbers among the doubles

A finite double is `mantissa * 2 ^ exponent`.  It is whole when the negative
power of two divides the mantissa.
-/

set_option autoImplicit false

namespace LifecycleGraph.Decimal

def Binary.whole? (value : Binary) : Option Nat :=
  let divisor := Nat.pow 2 (-value.exponent).toNat
  if value.mantissa % divisor = 0 then
    some (value.mantissa / divisor * Nat.pow 2 value.exponent.toNat)
  else none

/-- The integer that a double equals, if there is one. -/
def wholeNumber? (number : Float) : Option Int :=
  if number.isNaN || number.isInf then none
  else
    (Binary.ofBits number.toBits).whole?.map fun magnitude =>
      if number.toBits >>> 63 == 1 then -(magnitude : Int) else magnitude

end LifecycleGraph.Decimal
