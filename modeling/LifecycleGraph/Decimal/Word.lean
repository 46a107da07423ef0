/-!
# Numbers of sixty-four bits

The ranges of the numbers that sixty-four bits hold, without and with a sign.
-/

set_option autoImplicit false

namespace LifecycleGraph.Decimal

/-- The number of values of sixty-four bits. -/
def wordCount : Nat := 0x10000000000000000

/-- Half of them, the number of values below zero. -/
def negativeCount : Nat := 0x8000000000000000

/-- A natural number of sixty-four bits. -/
def fitsWord (number : Nat) : Bool := decide (number < wordCount)

/-- An integer of sixty-four bits, one of which is the sign. -/
def fitsInteger (number : Int) : Bool :=
  decide (-(negativeCount : Int) ≤ number) && decide (number < negativeCount)

/-- The integer of sixty-four bits that is nearest to an integer. -/
def clampInteger (number : Int) : Int :=
  max (-(negativeCount : Int)) (min number (negativeCount - 1))

theorem fitsInteger_iff (number : Int) :
    fitsInteger number = true ↔ -(negativeCount : Int) ≤ number ∧ number < negativeCount := by
  rw [fitsInteger, Bool.and_eq_true, decide_eq_true_iff, decide_eq_true_iff]

theorem fitsInteger_clampInteger (number : Int) : fitsInteger (clampInteger number) = true := by
  have positive : 0 < negativeCount := by decide
  rw [fitsInteger_iff, clampInteger]
  omega

theorem clampInteger_of_fits (number : Int) (fits : fitsInteger number = true) :
    clampInteger number = number := by
  rw [fitsInteger_iff] at fits
  rw [clampInteger]
  omega

end LifecycleGraph.Decimal
