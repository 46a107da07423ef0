import LifecycleGraph.Proofs.Decimal.Exact
import LifecycleGraph.Value

/-!
# How doubles compare

Two doubles compare as equal exactly if they are the same, or zeros of either sign; what is not a
number compares with nothing.  The order of two doubles is reversed when they are exchanged.
Doubles that compare as equal are one number, so integers that go to them are the same, unless
they are too large to be doubles themselves.
-/

set_option autoImplicit false

namespace LifecycleGraph.Decimal

open Float.Model UnpackedFloat

/-! ## Unpacked doubles -/

section Unpacked

variable {first second : UnpackedFloat}

theorem swap_compare (first second : UnpackedFloat) :
    (first.compare second).map Ordering.swap = second.compare first := by
  have signs (sign other : Sign) : (compare sign other).swap = compare other sign := by
    cases sign <;> cases other <;> rfl
  have sizes (exponent exponent' : Int) (mantissa mantissa' : Nat) :
      ((compare exponent exponent').then (compare mantissa mantissa')).swap =
        (compare exponent' exponent).then (compare mantissa' mantissa) := by
    rw [Ordering.swap_then, ← Std.OrientedOrd.eq_swap, ← Std.OrientedOrd.eq_swap]
  rcases first with ⟨⟨⟩⟩ | _ | ⟨⟨⟩⟩ | ⟨⟨⟩, _, _, _⟩ <;>
    rcases second with ⟨⟨⟩⟩ | _ | ⟨⟨⟩⟩ | ⟨⟨⟩, _, _, _⟩ <;>
    simp only [UnpackedFloat.compare, Option.map_some, Option.map_none, signs, sizes,
      Ordering.swap_lt, Ordering.swap_gt, Ordering.swap_eq]

/-- What compares as equal is the same, but for the signs of zeros. -/
theorem of_compare_eq (equal : first.compare second = some .eq) :
    first = second ∨ ∃ sign other, first = .zero sign ∧ second = .zero other := by
  rcases first with ⟨⟨⟩⟩ | _ | sign | ⟨⟨⟩, _, _, _⟩ <;>
    rcases second with ⟨⟨⟩⟩ | _ | other | ⟨⟨⟩, _, _, _⟩ <;>
    simp [UnpackedFloat.compare, Ordering.then_eq_eq, Ordering.swap_eq_eq] at equal ⊢
  · exact equal.symm
  · exact equal.symm

theorem compare_self_iff (unpacked : UnpackedFloat) :
    unpacked.compare unpacked = some .eq ↔ unpacked.isNaN = false := by
  have signs (sign : Sign) : compare sign sign = .eq := by cases sign <;> rfl
  rcases unpacked with ⟨⟨⟩⟩ | _ | _ | ⟨⟨⟩, _, _, _⟩ <;>
    simp [UnpackedFloat.compare, UnpackedFloat.isNaN, signs]

/-- Zeros of either sign compare in the same way. -/
theorem compare_of_compare_eq (equal : first.compare second = some .eq) (third : UnpackedFloat) :
    first.compare third = second.compare third := by
  rcases of_compare_eq equal with rfl | ⟨sign, other, rfl, rfl⟩
  · rfl
  · rcases third with ⟨⟨⟩⟩ | _ | _ | ⟨⟨⟩, _, _, _⟩ <;> rfl

end Unpacked

/-! ## Doubles -/

theorem compareFloat?_eq (first second : Float) :
    Value.compareFloat? first second =
      first.toModel.unpack.compare second.toModel.unpack := by
  have less (one other : Float) :
      one < other ↔ one.toModel.unpack.compare other.toModel.unpack = some .lt :=
    decide_eq_true_iff.trans beq_iff_eq
  have equal : (first == second) = true ↔
      first.toModel.unpack.compare second.toModel.unpack = some .eq :=
    beq_iff_eq (a := first.toModel.unpack.compare second.toModel.unpack)
  rw [Value.compareFloat?]
  simp only [less, equal]
  rw [← swap_compare first.toModel.unpack]
  cases first.toModel.unpack.compare second.toModel.unpack with
  | none => rfl
  | some order => cases order <;> rfl

variable {first second : Float}

theorem swap_compareFloat? (first second : Float) :
    (Value.compareFloat? first second).map Ordering.swap = Value.compareFloat? second first := by
  rw [compareFloat?_eq, compareFloat?_eq, swap_compare]

theorem compareFloat?_self_iff (number : Float) :
    Value.compareFloat? number number = some .eq ↔ number.isNaN = false := by
  rw [compareFloat?_eq]
  exact compare_self_iff _

theorem compareFloat?_of_equal (equal : Value.compareFloat? first second = some .eq)
    (third : Float) : Value.compareFloat? first third = Value.compareFloat? second third := by
  rw [compareFloat?_eq] at equal ⊢
  rw [compareFloat?_eq]
  exact compare_of_compare_eq equal _

theorem exactValue?_of_equal (equal : Value.compareFloat? first second = some .eq) :
    exactValue? first = exactValue? second := by
  rw [compareFloat?_eq] at equal
  rw [exactValue?, exactValue?]
  rcases of_compare_eq equal with same | ⟨sign, other, isZero, alsoZero⟩
  · rw [same]
  · rw [isZero, alsoZero]

/-! ## Integers as doubles -/

theorem isNaN_ofInt {whole : Int} (bounded : |whole| < 2 ^ 64) :
    (Float.ofInt whole).isNaN = false := by
  obtain ⟨value, isValue, -⟩ := exists_exactValue?_ofInt whole bounded
  have isNaN : (Float.ofInt whole).isNaN = (Float.ofInt whole).toModel.unpack.isNaN := rfl
  rw [exactValue?] at isValue
  rw [isNaN]
  cases unpacked : (Float.ofInt whole).toModel.unpack with
  | notANumber =>
      rw [unpacked] at isValue
      cases isValue
  | _ => rfl

/-- No other integer goes to the double of a small one. -/
theorem eq_of_compareFloat?_ofInt {whole other : Int} (small : |whole| < 2 ^ 53)
    (bounded : |other| < 2 ^ 64)
    (equal : Value.compareFloat? (Float.ofInt whole) (Float.ofInt other) = some .eq) :
    whole = other := by
  obtain ⟨value, isValue, same, -⟩ := exists_exactValue?_ofInt whole (by omega)
  obtain ⟨otherValue, isOther, otherSame, far⟩ := exists_exactValue?_ofInt other bounded
  have equalValues : value = otherValue :=
    Option.some.inj (isValue.symm.trans ((exactValue?_of_equal equal).trans isOther))
  obtain rfl := same small
  by_cases otherSmall : |other| < 2 ^ 53
  · exact_mod_cast equalValues.trans (otherSame otherSmall)
  · have large := far (not_lt.mp otherSmall)
    rw [← equalValues] at large
    exact absurd small (not_lt.mpr (by exact_mod_cast large))

end LifecycleGraph.Decimal
