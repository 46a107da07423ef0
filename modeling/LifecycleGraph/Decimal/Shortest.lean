/-!
# The shortest decimal of a floating-point number

A finite double stands for `mantissa * 2 ^ exponent` and for the interval of
reals that round to it.  The shortest decimal is found by exact arithmetic: for
one digit, two digits and so on, the two neighbours of the value on that
decimal grid are tested against the interval, and the first grid with a hit
wins.  Of two hits the nearer one is taken.
-/

set_option autoImplicit false

namespace LifecycleGraph.Decimal

/-- The finite value `mantissa * 2 ^ exponent`; `narrowBelow` marks a power of
two, whose gap to the value below is half the gap to the value above. -/
structure Binary where
  mantissa : Nat
  exponent : Int
  narrowBelow : Bool

def Binary.ofBits (bits : UInt64) : Binary :=
  let biased := ((bits >>> 52) &&& 0x7FF).toNat
  let fraction := (bits &&& 0xFFFFFFFFFFFFF).toNat
  if biased = 0 then ⟨fraction, -1074, false⟩
  else ⟨0x10000000000000 + fraction, (biased : Int) - 1075, fraction == 0 && decide (1 < biased)⟩

/-- The decimal `significand * 10 ^ exponent`. -/
structure Scaled where
  significand : Nat
  exponent : Int
deriving DecidableEq, Repr

/-- Which of two equally near neighbours is taken. -/
inductive Tie where
  | toEven
  | upward
deriving DecidableEq, Repr

/-- The order of `decimal * 10 ^ tens` and `binary * 2 ^ twos`. -/
def compareScaled (decimal : Nat) (tens : Int) (binary : Nat) (twos : Int) : Ordering :=
  compare (decimal * Nat.pow 10 tens.toNat * Nat.pow 2 (-twos).toNat)
    (binary * Nat.pow 2 twos.toNat * Nat.pow 10 (-tens).toNat)

/-- A decimal lies among the reals that round to the value; the two ends of
the interval belong to it when the mantissa is even. -/
def Binary.readsBack (value : Binary) (decimal : Scaled) : Bool :=
  let low := if value.narrowBelow then 4 * value.mantissa - 1 else 4 * value.mantissa - 2
  let high := 4 * value.mantissa + 2
  let closed := value.mantissa % 2 == 0
  let fromLow := compareScaled decimal.significand decimal.exponent low (value.exponent - 2)
  let fromHigh := compareScaled decimal.significand decimal.exponent high (value.exponent - 2)
  (fromLow == .gt || (closed && fromLow == .eq)) &&
    (fromHigh == .lt || (closed && fromHigh == .eq))

/-- The least `k` with `value < 10 ^ k`, sought upwards from a lower bound. -/
def Binary.scaleFrom (value : Binary) : Nat → Int → Int
  | 0, guess => guess
  | steps + 1, guess =>
      if compareScaled 1 guess value.mantissa value.exponent == .gt then guess
      else value.scaleFrom steps (guess + 1)

def Binary.scale (value : Binary) : Int :=
  let log := (Nat.log2 value.mantissa : Int) + value.exponent
  value.scaleFrom 4 (log * 30103 / 100000 - 1)

/-- The value in units of `10 ^ tens`, as a quotient of naturals. -/
def Binary.inUnits (value : Binary) (tens : Int) : Nat × Nat :=
  (value.mantissa * Nat.pow 2 value.exponent.toNat * Nat.pow 10 (-tens).toNat,
    Nat.pow 2 (-value.exponent).toNat * Nat.pow 10 tens.toNat)

/-- The decimal of the grid `10 ^ tens` that reads back, if there is one. -/
def Binary.onGrid? (tie : Tie) (value : Binary) (tens : Int) : Option Scaled :=
  let (top, bottom) := value.inUnits tens
  let below := top / bottom
  let lower : Scaled := ⟨below, tens⟩
  let upper : Scaled := ⟨below + 1, tens⟩
  match value.readsBack lower, value.readsBack upper with
  | false, false => none
  | true, false => some lower
  | false, true => some upper
  | true, true =>
      match compare (2 * top) ((2 * below + 1) * bottom) with
      | .lt => some lower
      | .gt => some upper
      | .eq =>
          match tie with
          | .toEven => some (if below % 2 = 0 then lower else upper)
          | .upward => some upper

/-- The powers of ten below two to the thousand and seventy-fourth, dropped
one at a time from a significand. -/
def Scaled.stripFrom : Nat → Scaled → Scaled
  | 0, decimal => decimal
  | steps + 1, decimal =>
      if decimal.significand % 10 = 0 then
        Scaled.stripFrom steps ⟨decimal.significand / 10, decimal.exponent + 1⟩
      else decimal

def Scaled.strip (decimal : Scaled) : Scaled :=
  if decimal.significand = 0 then ⟨0, 0⟩
  else Scaled.stripFrom (Nat.log2 decimal.significand + 1) decimal

def Binary.exact (value : Binary) : Scaled :=
  if value.exponent < 0 then
    ⟨value.mantissa * Nat.pow 5 (-value.exponent).toNat, value.exponent⟩
  else ⟨value.mantissa * Nat.pow 2 value.exponent.toNat, 0⟩

/-- The shortest decimal that reads back, the nearest one among those. -/
def Binary.shortest (tie : Tie) (value : Binary) : Scaled :=
  if value.mantissa = 0 then ⟨0, 0⟩
  else
    let scale := value.scale
    let hit := (List.range 17).findSome? fun fewer =>
      value.onGrid? tie (scale - (fewer + 1 : Nat))
    (hit.getD value.exact).strip

end LifecycleGraph.Decimal
