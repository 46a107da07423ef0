import Mathlib
import LifecycleGraph.Decimal.Whole

/-!
# The numbers that doubles are

A finite double is a sign, a mantissa and an exponent of two, and so exactly one rational number.
The bits are read as these three, so a double is found to be whole exactly if its number is.  Every
double of at least two to the fifty-third is whole, and a large natural number goes to a double that
is not below its highest power of two.  An integer below two to the fifty-third is a double, and no
other integer goes to the same one.
-/

set_option autoImplicit false

namespace LifecycleGraph.Decimal

open Float.Model UnpackedFloat

/-- The number that a double is; the infinities and what is not a number are none. -/
def exactValue? (number : Float) : Option ℚ :=
  match number.toModel.unpack with
  | .infinity _ => none
  | .notANumber => none
  | .zero _ => some 0
  | .finite sign mantissa exponent _ => some (sign.apply mantissa * 2 ^ exponent)

/-! ## Bits -/

section Bits

variable (bits : UInt64)

theorem toNat_exponentBits :
    ((bits >>> 52) &&& 0x7FF).toNat = (@unpackExponent .binary64 bits.toBitVec).toNat := by
  rw [unpackExponent_def]
  simpa [Nat.shiftRight_eq_div_pow] using
    Nat.and_two_pow_sub_one_eq_mod (bits.toNat / 4503599627370496) 11

theorem toNat_fractionBits :
    (bits &&& 0xFFFFFFFFFFFFF).toNat = (@unpackMantissa .binary64 bits.toBitVec).toNat := by
  rw [unpackMantissa_def]
  simpa using Nat.and_two_pow_sub_one_eq_mod bits.toNat 52

theorem signBit_iff :
    (bits >>> 63 == 1) = true ↔
      Sign.ofBitVec (@unpackSign .binary64 bits.toBitVec) = .negative := by
  have below : bits.toNat < 18446744073709551616 := bits.toNat_lt
  have shifted : (bits >>> 63).toNat = bits.toNat / 9223372036854775808 := by
    simp [Nat.shiftRight_eq_div_pow]
  have extracted : (@unpackSign .binary64 bits.toBitVec).toNat =
      bits.toNat / 9223372036854775808 % 2 := by
    simp [unpackSign_def, Nat.shiftRight_eq_div_pow]
  rw [beq_iff_eq, ← UInt64.toNat_inj, shifted, Sign.ofBitVec]
  by_cases isZero : @unpackSign .binary64 bits.toBitVec = 0#1
  · have zero := congrArg BitVec.toNat isZero
    rw [extracted] at zero
    rw [if_pos isZero]
    simp at zero ⊢
    omega
  · have notZero := mt BitVec.toNat_inj.mp isZero
    rw [extracted] at notZero
    rw [if_neg isZero]
    simp at notZero ⊢
    omega

/-- The bit before the fraction of a normal double. -/
theorem toNat_append_implicit (fraction : BitVec 52) :
    (1#1 ++ fraction).toNat = 0x10000000000000 + fraction.toNat := by
  rw [BitVec.toNat_append, ← Nat.shiftLeft_add_eq_or_of_lt fraction.isLt]
  rfl

end Bits

/-- A double as its bits are read: its sign, its mantissa and its exponent; zero has no mantissa. -/
theorem ofBits_reads (number : Float) :
    match number.toModel.unpack with
    | .finite sign mantissa exponent _ =>
        (Binary.ofBits number.toBits).mantissa = mantissa ∧
          (Binary.ofBits number.toBits).exponent = exponent ∧
          ((number.toBits >>> 63 == 1) = true ↔ sign = .negative) ∧ mantissa < 2 ^ 53
    | .zero _ => (Binary.ofBits number.toBits).mantissa = 0
    | _ => True := by
  have unpacks : number.toModel.unpack =
      UnpackedFloat.unpack .binary64 number.toBits.toBitVec := rfl
  have bias : Format.binary64.exponentBias = 1023 := by decide
  rw [unpacks, Binary.ofBits, toNat_fractionBits, toNat_exponentBits, signBit_iff]
  fun_cases UnpackedFloat.unpack .binary64 number.toBits.toBitVec with
  | case1 => trivial
  | case2 => trivial
  | case3 fraction biased _ _ _ isSmall noFraction =>
      have zero : biased.toNat = 0 := congrArg BitVec.toNat isSmall
      rw [if_pos zero]
      exact congrArg BitVec.toNat noFraction
  | case4 fraction biased exponent _ _ _ isSmall =>
      have zero : biased.toNat = 0 := congrArg BitVec.toNat isSmall
      have below : fraction.toNat < 2 ^ 52 := fraction.isLt
      have least : exponent + 1 = -1074 := by
        simp only [exponent, zero, bias]
        rfl
      rw [if_pos zero]
      exact ⟨rfl, least.symm, Iff.rfl, by omega⟩
  | case5 fraction biased exponent _ _ _ isNormal =>
      have notZero : ¬ biased.toNat = 0 := fun zero => isNormal (BitVec.toNat_inj.mp zero)
      have below : fraction.toNat < 2 ^ 52 := fraction.isLt
      have unbiased : exponent = biased.toNat - 1075 := by
        simp only [exponent, bias]
        rfl
      have implicit : (1#1 ++ fraction).toNat = 0x10000000000000 + fraction.toNat :=
        toNat_append_implicit fraction
      rw [if_neg notZero]
      exact ⟨implicit.symm, unbiased.symm, Iff.rfl, by rw [implicit]; omega⟩

/-! ## Whole numbers -/

theorem whole?_eq_some_iff (value : Binary) (whole : Nat) :
    value.whole? = some whole ↔ (value.mantissa : ℚ) * 2 ^ value.exponent = whole := by
  obtain ⟨mantissa, exponent, narrow⟩ := value
  rw [Binary.whole?]
  rcases Int.eq_nat_or_neg exponent with ⟨power, rfl | rfl⟩
  · have noDivisor : (-(power : Int)).toNat = 0 := by omega
    simp only [noDivisor, Nat.pow_eq, Nat.pow_zero, Nat.mod_one, if_true, Nat.div_one,
      Int.toNat_natCast, Option.some.injEq, zpow_natCast]
    norm_cast
  · have divisor : (-(-(power : Int))).toNat = power := by omega
    have noFactor : (-(power : Int)).toNat = 0 := by omega
    have scaled : (mantissa : ℚ) * 2 ^ (-(power : Int)) = whole ↔ mantissa = whole * 2 ^ power := by
      rw [zpow_neg, zpow_natCast, ← div_eq_mul_inv, div_eq_iff (by positivity)]
      norm_cast
    simp only [divisor, noFactor, Nat.pow_eq, Nat.pow_zero, Nat.mul_one]
    rw [scaled]
    split
    · rename_i divides
      rw [Option.some.injEq]
      exact Nat.div_eq_iff_eq_mul_left (Nat.two_pow_pos power) (Nat.dvd_of_mod_eq_zero divides)
    · rename_i notWhole
      refine iff_of_false (fun given => by cases given) fun same => notWhole ?_
      rw [same, Nat.mul_mod_left]

/-- A number that is not negative, with a sign before it, is an integer exactly if it is a natural
number. -/
theorem exists_magnitude_iff {rational : ℚ} (notNegative : 0 ≤ rational) (negative : Bool)
    (whole : Int) :
    (∃ magnitude : Nat, rational = magnitude ∧
        (if negative then -(magnitude : Int) else magnitude) = whole) ↔
      (if negative then -rational else rational) = whole := by
  constructor
  · rintro ⟨magnitude, rfl, rfl⟩
    cases negative <;> simp
  · intro same
    cases negative with
    | false =>
        have isWhole : rational = whole := same
        have natural : 0 ≤ whole := by exact_mod_cast isWhole ▸ notNegative
        refine ⟨whole.toNat, ?_, Int.toNat_of_nonneg natural⟩
        rw [isWhole]
        exact_mod_cast (Int.toNat_of_nonneg natural).symm
    | true =>
        have isWhole : rational = -whole := by
          rw [← same]
          simp
        have natural : 0 ≤ -whole := by exact_mod_cast isWhole ▸ notNegative
        have magnitude := Int.toNat_of_nonneg natural
        refine ⟨(-whole).toNat, ?_, by simp only [if_true]; omega⟩
        rw [isWhole]
        exact_mod_cast magnitude.symm

/-- A double is found to be whole exactly if its number is. -/
theorem wholeNumber?_eq_some_iff (number : Float) (whole : Int) :
    wholeNumber? number = some whole ↔ exactValue? number = some (whole : ℚ) := by
  have reads := ofBits_reads number
  have notNumber : number.isNaN = number.toModel.unpack.isNaN := rfl
  have infinite : number.isInf = number.toModel.unpack.isInf := rfl
  rw [wholeNumber?, exactValue?, notNumber, infinite]
  cases unpacked : number.toModel.unpack with
  | infinity sign => simp [UnpackedFloat.isNaN, UnpackedFloat.isInf]
  | notANumber => simp [UnpackedFloat.isNaN]
  | zero sign =>
      rw [unpacked] at reads
      have isZero := (whole?_eq_some_iff (Binary.ofBits number.toBits) 0).mpr (by simp [reads])
      simp only [UnpackedFloat.isNaN, UnpackedFloat.isInf, Bool.or_self, Bool.false_eq_true,
        if_false, Option.bind_eq_bind, Option.pure_def, isZero, Option.bind_some, Option.map_some,
        Option.some.injEq, Int.natCast_zero, Int.neg_zero, ite_self]
      norm_cast
  | finite sign mantissa exponent positive =>
      rw [unpacked] at reads
      obtain ⟨isMantissa, isExponent, isSign, -⟩ := reads
      have magnitudes := whole?_eq_some_iff (Binary.ofBits number.toBits)
      rw [isMantissa, isExponent] at magnitudes
      have signed : (sign.apply mantissa : ℚ) * 2 ^ exponent =
          if (number.toBits >>> 63 == 1) = true then -((mantissa : ℚ) * 2 ^ exponent)
          else (mantissa : ℚ) * 2 ^ exponent := by
        cases sign with
        | negative => simp [isSign.mpr rfl, Sign.apply]
        | positive =>
            rw [if_neg (fun isNegative => by cases isSign.mp isNegative)]
            rfl
      simp only [UnpackedFloat.isNaN, UnpackedFloat.isInf, Bool.or_self, Bool.false_eq_true,
        if_false, Option.bind_eq_bind, Option.pure_def, Option.map_eq_some_iff,
        Option.bind_eq_some_iff, magnitudes, Option.some.injEq, exists_exists_and_eq_and]
      rw [signed, exists_magnitude_iff (by positivity)]

/-- The mantissa of a double is too small for a fraction of such a number. -/
theorem exists_whole_of_large {number : Float} {value : ℚ}
    (isValue : exactValue? number = some value) (large : 2 ^ 53 ≤ |value|) :
    ∃ whole : Int, value = whole := by
  have reads := ofBits_reads number
  rw [exactValue?] at isValue
  cases unpacked : number.toModel.unpack with
  | infinity sign => simp [unpacked] at isValue
  | notANumber => simp [unpacked] at isValue
  | zero sign =>
      simp only [unpacked, Option.some.injEq] at isValue
      exact ⟨0, by simp [← isValue]⟩
  | finite sign mantissa exponent positive =>
      rw [unpacked] at reads
      obtain ⟨-, -, -, below⟩ := reads
      simp only [unpacked, Option.some.injEq] at isValue
      subst isValue
      rcases Int.eq_nat_or_neg exponent with ⟨power, rfl | rfl⟩
      · exact ⟨sign.apply mantissa * 2 ^ power, by simp⟩
      · have magnitude : |(sign.apply mantissa : ℚ)| = mantissa := by
          cases sign <;> simp [Sign.apply]
        have scaled : (2 : ℚ) ^ (-(power : Int)) ≤ 1 := by
          rw [zpow_neg, zpow_natCast]
          exact inv_le_one_of_one_le₀ (one_le_pow₀ one_le_two)
        have tooSmall : (mantissa : ℚ) < 2 ^ 53 := by exact_mod_cast below
        rw [abs_mul, magnitude, abs_of_pos (by positivity)] at large
        have smaller : (mantissa : ℚ) * 2 ^ (-(power : Int)) ≤ mantissa :=
          mul_le_of_le_one_right (by positivity) scaled
        exact absurd (large.trans smaller) (not_le.mpr tooSmall)

/-! ## Large natural numbers as doubles -/

section Rounding

/-- A double keeps fifty-three bits, as far as there is an exponent for them. -/
theorem targetExponent_totalExponent (mantissa : Nat) (exponent : Int) :
    Format.targetExponent .binary64 (totalExponent mantissa exponent) =
      max (mantissa.log2 + 1 + exponent - 53) (-1074) := by
  have bits : Format.binary64.mantissaBits = 53 := by decide
  have lowest : Format.binary64.minExponent = -1074 := by decide
  rw [Format.targetExponent, totalExponent, bits, lowest]
  rfl

theorem mantissa_shiftRight (extended : ExtendedMantissa) (shift : Nat) :
    (extended >>> shift).mantissa = extended.mantissa / 2 ^ shift := by
  induction shift with
  | zero => simp [HShiftRight.hShiftRight, Nat.repeat]
  | succ shift inductionHypothesis =>
      have step : (extended >>> (shift + 1)).mantissa = (extended >>> shift).mantissa / 2 := rfl
      rw [step, inductionHypothesis, Nat.div_div_eq_div_mul, Nat.pow_succ]

/-- Rounding adds one at most. -/
theorem roundedMantissa_mem (extended : ExtendedMantissa) :
    extended.mantissa ≤ extended.roundedMantissa ∧
      extended.roundedMantissa ≤ extended.mantissa + 1 := by
  obtain ⟨mantissa, roundBit, stickyBit⟩ := extended
  cases roundBit <;> cases stickyBit <;>
    simp only [ExtendedMantissa.roundedMantissa, ExtendedMantissa.accuracy,
      Accuracy.roundToNearestEven] <;>
    omega

/-- A mantissa of fifty-three bits stays as it is. -/
theorem shiftToTargetExponent_of_normal {mantissa : Nat} {exponent : Int}
    (low : 2 ^ 52 ≤ mantissa) (high : mantissa < 2 ^ 53) (least : -1074 ≤ exponent) :
    shiftToTargetExponent .binary64 mantissa exponent .exact =
      (⟨mantissa, false, false⟩, exponent) := by
  have digits : mantissa.log2 = 52 := (Nat.log2_eq_iff (by omega)).mpr ⟨low, high⟩
  have target : Format.targetExponent .binary64 (totalExponent mantissa exponent) = exponent := by
    rw [targetExponent_totalExponent, digits]
    omega
  rw [shiftToTargetExponent, target, shiftToExponent]
  simp [ExtendedMantissa.ofMantissaAndAccuracy, HShiftRight.hShiftRight, Nat.repeat]

/-- A mantissa that was rounded to one bit more loses it again. -/
theorem shiftToTargetExponent_of_carry {exponent : Int} (least : -1074 ≤ exponent) :
    shiftToTargetExponent .binary64 (2 ^ 53) exponent .exact =
      (⟨2 ^ 52, false, false⟩, exponent + 1) := by
  have target : Format.targetExponent .binary64 (totalExponent (2 ^ 53) exponent) =
      exponent + 1 := by
    rw [targetExponent_totalExponent, Nat.log2_two_pow]
    omega
  rw [shiftToTargetExponent, target, shiftToExponent]
  simp [ExtendedMantissa.ofMantissaAndAccuracy, HShiftRight.hShiftRight, Nat.repeat,
    ExtendedMantissa.shiftRightOne]

/-- A large natural number, shifted so that no bit is lost, is cut to fifty-three bits. -/
theorem exists_shifted {natural : Nat} (large : 2 ^ 53 ≤ natural) :
    ∃ extended : ExtendedMantissa,
      shiftToTargetExponent .binary64 (natural <<< 53) (-53) .exact =
        (extended, (natural.log2 : Int) - 52) ∧
      2 ^ 52 ≤ extended.mantissa ∧ extended.mantissa < 2 ^ 53 := by
  have notZero : natural ≠ 0 := by omega
  have digits : 53 ≤ natural.log2 := (Nat.le_log2 notZero).mpr large
  have low : 2 ^ natural.log2 ≤ natural := Nat.log2_self_le notZero
  have high : natural < 2 ^ (natural.log2 + 1) := Nat.lt_log2_self
  have shiftedDigits : (natural <<< 53).log2 = natural.log2 + 53 := by
    rw [Nat.shiftLeft_eq, Nat.log2_eq_iff (by positivity), Nat.add_right_comm,
      Nat.pow_add 2 natural.log2, Nat.pow_add 2 (natural.log2 + 1)]
    exact ⟨Nat.mul_le_mul_right _ low, (Nat.mul_lt_mul_right (Nat.two_pow_pos 53)).mpr high⟩
  have target : Format.targetExponent .binary64 (totalExponent (natural <<< 53) (-53)) =
      natural.log2 - 52 := by
    rw [targetExponent_totalExponent, shiftedDigits]
    omega
  have shift : ((natural.log2 : Int) - 52 - -53).toNat = natural.log2 + 1 := by omega
  rw [shiftToTargetExponent, target, shiftToExponent, shift]
  refine ⟨_, Prod.ext rfl (by push_cast; ring), ?_⟩
  rw [mantissa_shiftRight, Nat.le_div_iff_mul_le (by positivity), Nat.div_lt_iff_lt_mul
    (by positivity), ExtendedMantissa.ofMantissaAndAccuracy, Nat.shiftLeft_eq]
  constructor
  · calc 2 ^ 52 * 2 ^ (natural.log2 + 1) = 2 ^ natural.log2 * 2 ^ 53 := by ring
      _ ≤ natural * 2 ^ 53 := Nat.mul_le_mul_right _ low
  · calc natural * 2 ^ 53 < 2 ^ (natural.log2 + 1) * 2 ^ 53 :=
        (Nat.mul_lt_mul_right (Nat.two_pow_pos 53)).mpr high
      _ = 2 ^ 53 * 2 ^ (natural.log2 + 1) := Nat.mul_comm ..

/-- A large natural number is rounded to a mantissa of fifty-three bits. -/
theorem exists_rounded {natural : Nat} (large : 2 ^ 53 ≤ natural) :
    ∃ mantissa exponent positive,
      roundWithAccuracy .binary64 .positive (natural <<< 53) (-53) .exact =
        .finite .positive mantissa exponent positive ∧
      2 ^ 52 ≤ mantissa ∧ mantissa < 2 ^ 53 ∧
      natural.log2 - 52 ≤ exponent ∧ exponent ≤ natural.log2 - 51 := by
  obtain ⟨extended, first, low, high⟩ := exists_shifted large
  obtain ⟨least, greatest⟩ := roundedMantissa_mem extended
  have digits : 53 ≤ natural.log2 := (Nat.le_log2 (by omega)).mpr large
  have second : ∃ mantissa exponent,
      shiftToTargetExponent .binary64 extended.roundedMantissa (natural.log2 - 52) .exact =
        (⟨mantissa, false, false⟩, exponent) ∧ 2 ^ 52 ≤ mantissa ∧ mantissa < 2 ^ 53 ∧
      natural.log2 - 52 ≤ exponent ∧ exponent ≤ natural.log2 - 51 := by
    by_cases carry : extended.roundedMantissa = 2 ^ 53
    · rw [carry]
      exact ⟨2 ^ 52, _, shiftToTargetExponent_of_carry (by omega), by omega, by omega, by omega,
        by omega⟩
    · exact ⟨_, _, shiftToTargetExponent_of_normal (by omega) (by omega) (by omega), by omega,
        by omega, by omega, by omega⟩
  obtain ⟨mantissa, exponent, second, isLow, isHigh, isLeast, isGreatest⟩ := second
  refine ⟨mantissa, exponent, by omega, ?_, isLow, isHigh, isLeast, isGreatest⟩
  simp only [roundWithAccuracy, first, second]
  rw [dif_neg (by omega)]

/-- A normal double is unpacked as it was packed. -/
theorem unpack_pack_of_normal {sign : Sign} {mantissa : Nat} {exponent : Int}
    (positive : 0 < mantissa) (low : 2 ^ 52 ≤ mantissa) (high : mantissa < 2 ^ 53)
    (least : -1074 ≤ exponent) (greatest : exponent ≤ 971) :
    UnpackedFloat.unpack .binary64 (UnpackedFloat.pack .binary64
        (.finite sign mantissa exponent positive)) = .finite sign mantissa exponent positive := by
  have digits : mantissa.log2 + 1 = Format.binary64.mantissaBits :=
    congrArg (· + 1) ((Nat.log2_eq_iff (by omega)).mpr ⟨low, high⟩)
  have bias : Format.binary64.exponentBias = 1023 := by decide
  obtain ⟨biased, isBiased⟩ : ∃ biased, (exponent + (1023 : Nat) + (52 : Nat)).toNat = biased :=
    ⟨_, rfl⟩
  have stored : (BitVec.ofNat 11 biased).toNat = biased := by
    rw [BitVec.toNat_ofNat]
    omega
  have notSpecial : ¬ BitVec.ofNat 11 biased = -1#11 := fun same => by
    have special : biased = 2047 := stored.symm.trans (congrArg BitVec.toNat same)
    omega
  have notSmall : ¬ BitVec.ofNat 11 biased = 0#11 := fun same => by
    have small : biased = 0 := stored.symm.trans (congrArg BitVec.toNat same)
    omega
  have fraction : (1#1 ++ BitVec.ofNat 52 mantissa).toNat = mantissa := by
    rw [toNat_append_implicit, BitVec.toNat_ofNat]
    omega
  rw [UnpackedFloat.pack]
  simp only [bias, isBiased]
  rw [if_neg (by omega), if_pos digits, UnpackedFloat.unpack]
  simp only [unpackMantissa_packComponents, unpackExponent_packComponents,
    unpackSign_packComponents, Sign.ofBitVec_toBitVec, bias]
  rw [if_neg notSpecial, if_neg notSmall]
  congr 1
  rw [stored]
  omega

/-- A large natural number goes to a normal double with an exponent near to its highest bit. -/
theorem exists_unpack_ofNat_of_large {natural : Nat} (large : 2 ^ 53 ≤ natural)
    (small : natural < 2 ^ 64) :
    ∃ mantissa exponent positive, (Float.ofNat natural).toModel.unpack =
        .finite .positive mantissa exponent positive ∧
      2 ^ 52 ≤ mantissa ∧ mantissa < 2 ^ 53 ∧
      natural.log2 - 52 ≤ exponent ∧ exponent ≤ natural.log2 - 51 := by
  obtain ⟨mantissa, exponent, positive, rounded, low, high, least, greatest⟩ :=
    exists_rounded large
  have digits : natural.log2 < 64 := (Nat.log2_lt (by omega)).mpr small
  have notExact : ¬ (natural < 2 ^ 53 ∧ 0 ≤ 22) := by omega
  have model : (Float.ofNat natural).toModel = Float.Model.ofScientific natural 0 := by
    have unfolded : Float.ofNat natural = Float.ofScientific natural false 0 := rfl
    rw [unfolded, Float.ofScientific, dif_neg notExact]
    rfl
  have scientific : UnpackedFloat.ofScientific .binary64 natural 0 =
      roundWithAccuracy .binary64 .positive (natural <<< 53) (-53) .exact := by
    have notZero : ¬ natural = 0 := by omega
    have bits : Format.binary64.mantissaBits = 53 := by decide
    have signs : Sign.positive * Sign.positive = Sign.positive := rfl
    have shift : -((53 : Nat) : Int) = -53 := rfl
    have range : (0 : Int) ≤ 2 ^ Format.binary64.exponentBits + natural.log2 := by positivity
    rw [UnpackedFloat.ofScientific, dif_neg notZero, if_neg (by decide), if_neg (by omega),
      if_pos (Int.le_refl 0)]
    simp only [UnpackedFloat.mul, bits, Int.toNat_zero, Nat.pow_zero, Nat.mul_one, Int.add_zero,
      signs, shift]
  refine ⟨mantissa, exponent, positive, ?_, low, high, least, greatest⟩
  rw [model]
  exact (congrArg _ (congrArg _ (scientific.trans rounded))).trans
    (unpack_pack_of_normal positive low high (by omega) (by omega))

/-- A large natural number goes to a double that is not below its highest power of two. -/
theorem exists_exactValue?_ofNat {natural : Nat} (large : 2 ^ 53 ≤ natural)
    (small : natural < 2 ^ 64) :
    ∃ value, exactValue? (Float.ofNat natural) = some value ∧ 2 ^ natural.log2 ≤ value := by
  obtain ⟨mantissa, exponent, positive, unpacked, low, -, least, -⟩ :=
    exists_unpack_ofNat_of_large large small
  refine ⟨mantissa * 2 ^ exponent, by simp [exactValue?, unpacked, Sign.apply], ?_⟩
  have isLow : (2 : ℚ) ^ 52 ≤ mantissa := by exact_mod_cast low
  calc (2 : ℚ) ^ natural.log2 = 2 ^ 52 * 2 ^ ((natural.log2 : Int) - 52) := by
        rw [← zpow_natCast, ← zpow_natCast, ← zpow_add₀ two_ne_zero]
        norm_num
    _ ≤ 2 ^ 52 * 2 ^ exponent :=
        mul_le_mul_of_nonneg_left (zpow_le_zpow_right₀ one_le_two least) (by positivity)
    _ ≤ mantissa * 2 ^ exponent := mul_le_mul_of_nonneg_right isLow (by positivity)

/-! ## Integers as doubles -/

/-- Zeros below the mantissa are shifted out without a trace. -/
theorem shiftRight_of_zeros (mantissa shift : Nat) :
    (⟨mantissa * 2 ^ shift, false, false⟩ : ExtendedMantissa) >>> shift =
      ⟨mantissa, false, false⟩ := by
  induction shift generalizing mantissa with
  | zero => simp [HShiftRight.hShiftRight, Nat.repeat]
  | succ shift inductionHypothesis =>
      have step (extended : ExtendedMantissa) :
          extended >>> (shift + 1) = (extended >>> shift).shiftRightOne := rfl
      rw [step, Nat.pow_succ', ← Nat.mul_assoc, inductionHypothesis (mantissa * 2)]
      simp [ExtendedMantissa.shiftRightOne]

/-- A mantissa of fifty-three bits with zeros below it is rounded to itself. -/
theorem roundWithAccuracy_of_zeros {mantissa : Nat} {exponent : Int} (sign : Sign)
    (low : 2 ^ 52 ≤ mantissa) (high : mantissa < 2 ^ 53) (least : -1074 ≤ exponent) (shift : Nat) :
    roundWithAccuracy .binary64 sign (mantissa * 2 ^ shift) (exponent - shift) .exact =
      .finite sign mantissa exponent (Nat.lt_of_lt_of_le (by decide) low) := by
  have digits : (mantissa * 2 ^ shift).log2 = 52 + shift := by
    rw [Nat.log2_eq_iff (by positivity), Nat.pow_add, Nat.add_right_comm, Nat.pow_add]
    exact ⟨Nat.mul_le_mul_right _ low, (Nat.mul_lt_mul_right (Nat.two_pow_pos shift)).mpr high⟩
  have target : Format.targetExponent .binary64
      (totalExponent (mantissa * 2 ^ shift) (exponent - shift)) = exponent := by
    rw [targetExponent_totalExponent, digits]
    omega
  have first : shiftToTargetExponent .binary64 (mantissa * 2 ^ shift) (exponent - shift) .exact =
      (⟨mantissa, false, false⟩, exponent) := by
    have amount : (exponent - (exponent - shift)).toNat = shift := by omega
    rw [shiftToTargetExponent, target, shiftToExponent, amount]
    exact Prod.ext (shiftRight_of_zeros mantissa shift) (by simp)
  have second := shiftToTargetExponent_of_normal low high least
  have exactly : (⟨mantissa, false, false⟩ : ExtendedMantissa).roundedMantissa = mantissa := rfl
  simp only [roundWithAccuracy, first, exactly, second]
  rw [dif_neg (by omega)]

/-- A small natural number is shifted until it has fifty-three bits. -/
theorem round_of_small {natural : Nat} (positive : 0 < natural) (small : natural < 2 ^ 53) :
    ∃ mantissa isPositive, UnpackedFloat.round .binary64 .positive natural 0 =
        .finite .positive mantissa ((natural.log2 : Int) - 52) isPositive ∧
      2 ^ 52 ≤ mantissa ∧ mantissa < 2 ^ 53 ∧
      (mantissa : ℚ) * 2 ^ ((natural.log2 : Int) - 52) = natural := by
  have notZero : natural ≠ 0 := Nat.ne_of_gt positive
  have digits : natural.log2 < 53 := (Nat.log2_lt notZero).mpr small
  obtain ⟨shift, whole⟩ : ∃ shift, natural.log2 + shift = 52 := ⟨52 - natural.log2, by omega⟩
  have low : 2 ^ 52 ≤ natural * 2 ^ shift := by
    rw [← whole, Nat.pow_add]
    exact Nat.mul_le_mul_right _ (Nat.log2_self_le notZero)
  have high : natural * 2 ^ shift < 2 ^ 53 := by
    have bits : 53 = natural.log2 + 1 + shift := by omega
    rw [bits, Nat.pow_add]
    exact (Nat.mul_lt_mul_right (Nat.two_pow_pos shift)).mpr Nat.lt_log2_self
  have target : Format.targetExponent .binary64 (totalExponent natural 0) =
      (natural.log2 : Int) - 52 := by
    rw [targetExponent_totalExponent]
    omega
  have amount : (0 - ((natural.log2 : Int) - 52)).toNat = shift := by omega
  have exponent : (0 : Int) - shift = natural.log2 - 52 := by omega
  have least : (-1074 : Int) ≤ natural.log2 - 52 := by omega
  have rounded := roundWithAccuracy_of_zeros .positive low high least 0
  simp only [Nat.pow_zero, Nat.mul_one, Int.natCast_zero, Int.sub_zero] at rounded
  refine ⟨natural * 2 ^ shift, by omega, ?_, low, high, ?_⟩
  · rw [UnpackedFloat.round, target, decreaseExponent, amount]
    simp only [Nat.shiftLeft_eq, exponent, rounded]
  · rw [← exponent, Int.zero_sub, zpow_neg, zpow_natCast]
    push_cast
    field_simp

theorem unpack_one :
    ∃ positive, Float.exactlyRepresentablePowersOfTen[0].toModel.unpack =
      .finite .positive (2 ^ 52) (-52) positive :=
  ⟨by decide, rfl⟩

/-- A small natural number is a double. -/
theorem exists_unpack_ofNat_of_small {natural : Nat} (positive : 0 < natural)
    (small : natural < 2 ^ 53) :
    ∃ mantissa isPositive, (Float.ofNat natural).toModel.unpack =
        .finite .positive mantissa ((natural.log2 : Int) - 52) isPositive ∧
      2 ^ 52 ≤ mantissa ∧ mantissa < 2 ^ 53 ∧
      (mantissa : ℚ) * 2 ^ ((natural.log2 : Int) - 52) = natural := by
  obtain ⟨mantissa, isPositive, rounded, low, high, same⟩ := round_of_small positive small
  have digits : natural.log2 < 53 := (Nat.log2_lt (Nat.ne_of_gt positive)).mpr small
  have word : natural.toUInt64.toNat = natural := by
    rw [Nat.toUInt64, UInt64.toNat_ofNat']
    exact Nat.mod_eq_of_lt (by omega)
  have converted : natural.toUInt64.toFloat.toModel.unpack =
      .finite .positive mantissa ((natural.log2 : Int) - 52) isPositive := by
    have normalized : UnpackedFloat.ofUInt64 .binary64 natural.toUInt64 =
        .finite .positive mantissa ((natural.log2 : Int) - 52) isPositive := by
      rw [UnpackedFloat.ofUInt64, UnpackedFloat.ofNat, UnpackedFloat.ofInt, UnpackedFloat.normalize,
        word,
        Int.compare_eq_gt.mpr (by omega)]
      exact rounded
    exact (congrArg (fun unpacked => UnpackedFloat.unpack .binary64
      (UnpackedFloat.pack .binary64 unpacked)) normalized).trans
        (unpack_pack_of_normal isPositive low high (by omega) (by omega))
  obtain ⟨onePositive, one⟩ := unpack_one
  have product : UnpackedFloat.mul .binary64 natural.toUInt64.toFloat.toModel.unpack
      Float.exactlyRepresentablePowersOfTen[0].toModel.unpack =
        .finite .positive mantissa ((natural.log2 : Int) - 52) isPositive := by
    rw [converted, one]
    exact roundWithAccuracy_of_zeros .positive low high (by omega) 52
  have fast : Float.ofNat natural =
      natural.toUInt64.toFloat * Float.exactlyRepresentablePowersOfTen[0] := by
    have unfolded : Float.ofNat natural = Float.ofScientific natural false 0 := rfl
    rw [unfolded, Float.ofScientific, dif_pos ⟨small, Nat.zero_le 22⟩]
    rfl
  refine ⟨mantissa, isPositive, ?_, low, high, same⟩
  rw [fast]
  exact (congrArg (fun unpacked => UnpackedFloat.unpack .binary64
    (UnpackedFloat.pack .binary64 unpacked)) product).trans
      (unpack_pack_of_normal isPositive low high (by omega) (by omega))

/-- A normal double is negated by its sign. -/
theorem exactValue?_neg {number : Float} {mantissa : Nat} {exponent : Int} {positive : 0 < mantissa}
    (unpacked : number.toModel.unpack = .finite .positive mantissa exponent positive)
    (low : 2 ^ 52 ≤ mantissa) (high : mantissa < 2 ^ 53) (least : -1074 ≤ exponent)
    (greatest : exponent ≤ 971) :
    exactValue? (-number) = some (-((mantissa : ℚ) * 2 ^ exponent)) := by
  have negated : UnpackedFloat.neg number.toModel.unpack =
      .finite .negative mantissa exponent positive := by
    rw [unpacked]
    rfl
  have repacked : (-number).toModel.unpack = .finite .negative mantissa exponent positive :=
    (congrArg (fun unpacked => UnpackedFloat.unpack .binary64
      (UnpackedFloat.pack .binary64 unpacked)) negated).trans
        (unpack_pack_of_normal positive low high least greatest)
  rw [exactValue?, repacked]
  simp [Sign.apply]

/-- A natural number goes to a normal double, to itself if it is small and far from zero if it is
not. -/
theorem exists_unpack_ofNat {natural : Nat} (positive : 0 < natural) (bounded : natural < 2 ^ 64) :
    ∃ mantissa exponent isPositive, (Float.ofNat natural).toModel.unpack =
        .finite .positive mantissa exponent isPositive ∧
      (2 ^ 52 ≤ mantissa ∧ mantissa < 2 ^ 53 ∧ -1074 ≤ exponent ∧ exponent ≤ 971) ∧
      (natural < 2 ^ 53 → (mantissa : ℚ) * 2 ^ exponent = natural) ∧
      (2 ^ 53 ≤ natural → 2 ^ 53 ≤ (mantissa : ℚ) * 2 ^ exponent) := by
  have digits : natural.log2 < 64 := (Nat.log2_lt (Nat.ne_of_gt positive)).mpr bounded
  by_cases small : natural < 2 ^ 53
  · obtain ⟨mantissa, isPositive, unpacked, low, high, same⟩ :=
      exists_unpack_ofNat_of_small positive small
    exact ⟨mantissa, _, isPositive, unpacked, ⟨low, high, by omega, by omega⟩, fun _ => same,
      fun large => absurd small (Nat.not_lt.mpr large)⟩
  · have large : 2 ^ 53 ≤ natural := Nat.not_lt.mp small
    have atLeast : 53 ≤ natural.log2 := (Nat.le_log2 (Nat.ne_of_gt positive)).mpr large
    obtain ⟨mantissa, exponent, isPositive, unpacked, low, high, least, greatest⟩ :=
      exists_unpack_ofNat_of_large large bounded
    refine ⟨mantissa, exponent, isPositive, unpacked, ⟨low, high, by omega, by omega⟩,
      fun isSmall => absurd isSmall small, fun _ => ?_⟩
    have isLow : (2 : ℚ) ^ 52 ≤ mantissa := by exact_mod_cast low
    have isScaled : (2 : ℚ) ^ (1 : Int) ≤ 2 ^ exponent :=
      zpow_le_zpow_right₀ one_le_two (by omega)
    calc (2 : ℚ) ^ 53 = (2 : ℚ) ^ 52 * (2 : ℚ) ^ (1 : Int) := by norm_num
      _ ≤ (mantissa : ℚ) * 2 ^ exponent :=
        mul_le_mul isLow isScaled (by positivity) (by positivity)

/-- An integer that is small goes to itself as a double, and one that is not goes to a double that
is not small. -/
theorem exists_exactValue?_ofInt (whole : Int) (bounded : |whole| < 2 ^ 64) :
    ∃ value : ℚ, exactValue? (Float.ofInt whole) = some value ∧
      (|whole| < 2 ^ 53 → value = whole) ∧ (2 ^ 53 ≤ |whole| → 2 ^ 53 ≤ |value|) := by
  obtain ⟨natural, isNatural⟩ := Int.eq_nat_or_neg whole
  have magnitude : |whole| = natural := by rcases isNatural with rfl | rfl <;> simp
  rw [magnitude] at bounded ⊢
  rcases Nat.eq_zero_or_pos natural with rfl | positive
  · have isZero : whole = 0 := by omega
    subst isZero
    exact ⟨0, by decide, fun _ => rfl, fun large => by norm_num at large⟩
  obtain ⟨mantissa, exponent, isPositive, unpacked, ⟨low, high, least, greatest⟩, same, far⟩ :=
    exists_unpack_ofNat positive (by exact_mod_cast bounded)
  have notNegative : 0 ≤ (mantissa : ℚ) * 2 ^ exponent := by positivity
  rcases isNatural with rfl | rfl
  · refine ⟨mantissa * 2 ^ exponent, ?_, fun small => ?_, fun large => ?_⟩
    · have unfolded : Float.ofInt natural = Float.ofNat natural := rfl
      rw [unfolded, exactValue?, unpacked]
      rfl
    · exact_mod_cast same (by exact_mod_cast small)
    · rw [abs_of_nonneg notNegative]
      exact far (by exact_mod_cast large)
  · refine ⟨-(mantissa * 2 ^ exponent), ?_, fun small => ?_, fun large => ?_⟩
    · obtain ⟨before, rfl⟩ := Nat.exists_eq_succ_of_ne_zero (Nat.ne_of_gt positive)
      exact exactValue?_neg unpacked low high least greatest
    · rw [same (by exact_mod_cast small)]
      push_cast
      rfl
    · rw [abs_neg, abs_of_nonneg notNegative]
      exact far (by exact_mod_cast large)

end Rounding

end LifecycleGraph.Decimal
