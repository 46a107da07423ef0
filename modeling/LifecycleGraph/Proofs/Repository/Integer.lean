import LifecycleGraph.Proofs.Decimal.Exact
import LifecycleGraph.Proofs.Repository.Conversion

/-!
# Numbers that are given for integers

A number that sixty-four bits hold with a sign is decoded as the integer that it is, and written as
the same number; one that is no integer is refused.  A number beyond this range is not refused, but
decoded as the end of the range.
-/

set_option autoImplicit false

namespace LifecycleGraph

/-- The number that data is.  Sixty-four bits hold an integer, with a sign or without one. -/
def Json.rational? : Json → Option ℚ
  | .integer content =>
      if -(Decimal.negativeCount : Int) ≤ content ∧ content < Decimal.wordCount then some content
      else none
  | .float number => Decimal.exactValue? number
  | _ => none

/-- What a property holds for a single value. -/
def Property.holding (property : Property) (value : Value) : Value :=
  if property.list then .list [value] else value

theorem Property.holding_injective (property : Property) : property.holding.Injective := by
  intro one other same
  rw [Property.holding, Property.holding] at same
  split at same
  · exact List.singleton_inj.mp (Value.list.inj same)
  · exact same

/-- How what a property holds for a single value is written. -/
def Property.writing (property : Property) (data : Json) : Json :=
  if property.list then .array [data] else data

namespace Converter

open Decimal

variable {data : Json} {value : ℚ}

/-- A natural number beyond the integers is not far away from itself as a double. -/
theorem exists_whole_ofInt {content : Int} (large : (negativeCount : Int) ≤ content)
    (small : content < wordCount) :
    ∃ whole : Int, wholeNumber? (Float.ofInt content) = some whole ∧
      (negativeCount : Int) ≤ whole := by
  obtain ⟨natural, rfl⟩ := Int.eq_ofNat_of_zero_le ((Int.natCast_nonneg _).trans large)
  have atLeast : 2 ^ 63 ≤ natural := by rw [negativeCount] at large; omega
  have below : natural < 2 ^ 64 := by rw [wordCount] at small; omega
  obtain ⟨value, isValue, lower⟩ := exists_exactValue?_ofNat (by omega) below
  have digits : natural.log2 = 63 := (Nat.log2_eq_iff (by omega)).mpr ⟨atLeast, below⟩
  rw [digits] at lower
  have positive : |value| = value := abs_of_nonneg (le_trans (by norm_num) lower)
  obtain ⟨whole, rfl⟩ := exists_whole_of_large isValue
    (positive.symm ▸ le_trans (by norm_num) lower)
  refine ⟨whole, (wholeNumber?_eq_some_iff _ _).mpr isValue, ?_⟩
  rw [negativeCount]
  exact_mod_cast lower

theorem clampInteger_of_large {whole : Int} (large : (negativeCount : Int) ≤ whole) :
    clampInteger whole = negativeCount - 1 := by
  rw [clampInteger, negativeCount] at *
  omega

theorem clampInteger_of_small {whole : Int} (small : whole < -(negativeCount : Int)) :
    clampInteger whole = -negativeCount := by
  rw [clampInteger, negativeCount] at *
  omega

theorem rational?_toInt (content : Int64) :
    (Json.integer content.toInt).rational? = some (content.toInt : ℚ) := by
  have least := content.le_toInt
  have greatest := content.toInt_lt
  rw [Json.rational?, if_pos]
  rw [negativeCount, wordCount]
  omega

/-- A whole number is read as the integer that is nearest to it. -/
theorem integerOfNumber?_of_whole {whole : Int} (isNumber : data.rational? = some (whole : ℚ)) :
    integerOfNumber? data = some (Int64.ofInt (clampInteger whole)) := by
  cases data with
  | integer content =>
      rw [Json.rational?] at isNumber
      split at isNumber
      · rename_i held
        obtain rfl : content = whole := by exact_mod_cast Option.some.inj isNumber
        rw [integerOfNumber?]
        by_cases fits : fitsInteger content = true
        · rw [if_pos fits, clampInteger_of_fits content fits]
        · rw [if_neg fits]
          have large : (negativeCount : Int) ≤ content := by
            rw [fitsInteger_iff] at fits
            omega
          obtain ⟨rounded, isRounded, alsoLarge⟩ := exists_whole_ofInt large held.2
          rw [isRounded, Option.map_some, clampInteger_of_large large,
            clampInteger_of_large alsoLarge]
      · cases isNumber
  | float number =>
      rw [integerOfNumber?, (wholeNumber?_eq_some_iff number whole).mpr isNumber, Option.map_some]
  | _ => cases isNumber

theorem integerOfNumber?_of_fraction (isNumber : data.rational? = some value)
    (fraction : ∀ whole : Int, value ≠ whole) : integerOfNumber? data = none := by
  cases data with
  | integer content =>
      rw [Json.rational?] at isNumber
      split at isNumber
      · exact absurd (Option.some.inj isNumber).symm (fraction content)
      · cases isNumber
  | float number =>
      rw [integerOfNumber?, Option.map_eq_none_iff, Option.eq_none_iff_forall_ne_some]
      intro whole isWhole
      have same := isNumber.symm.trans ((wholeNumber?_eq_some_iff number whole).mp isWhole)
      exact fraction whole (Option.some.inj same)
  | _ => cases isNumber

/-- A number beyond the integers is whole. -/
theorem exists_whole_of_rational? (isNumber : data.rational? = some value)
    (large : 2 ^ 63 ≤ |value|) : ∃ whole : Int, value = whole := by
  cases data with
  | integer content =>
      rw [Json.rational?] at isNumber
      split at isNumber
      · exact ⟨content, (Option.some.inj isNumber).symm⟩
      · cases isNumber
  | float number => exact exists_whole_of_large isNumber (le_trans (by norm_num) large)
  | _ => cases isNumber

/-- Every number is read as the nearest integer, or refused if it has a fraction. -/
theorem decode_integer (isNumber : data.rational? = some value) (type : DataType) (graph : Graph) :
    (∀ whole : Int, value = whole → integer.decode data type graph =
      .ok (.integer (Int64.ofInt (clampInteger whole)))) ∧
    ((∀ whole : Int, value ≠ whole) →
      integer.decode data type graph = .error (.value (.notInteger data.render))) := by
  have decodes {answer : Option Int64} (isAnswer : integerOfNumber? data = answer) :
      integer.decode data type graph = answer.elim (.error (.value (.notInteger data.render)))
        fun content => .ok (.integer content) := by
    cases data with
    | integer content => cases answer <;> simp only [integer, isAnswer, Option.elim]
    | float number => cases answer <;> simp only [integer, isAnswer, Option.elim]
    | _ => cases isNumber
  constructor
  · rintro whole rfl
    exact decodes (integerOfNumber?_of_whole isNumber)
  · intro fraction
    exact decodes (integerOfNumber?_of_fraction isNumber fraction)

end Converter

namespace Repository

open Converter Decimal

variable {repository : Repository} {property : Property} {data : Json} {value : ℚ}

section BuiltIn

variable (builtIn : repository.converters.converterFor property.dataType = .ok Converter.integer)

include builtIn

/-- A number is decoded as by the converter, for a single value or for a list of one. -/
theorem decodeValue_number (isNumber : data.rational? = some value) :
    repository.decodeValue property data =
      (Converter.integer.decode data property.dataType repository.graph).map property.holding := by
  rw [decodeValue, builtIn, ok_bind]
  cases list : property.list with
  | true =>
      have holding : property.holding = fun item => .list [item] := by
        funext item
        rw [Property.holding, list, if_pos rfl]
      rw [if_pos rfl, holding]
      cases data <;> first | rfl | cases isNumber
  | false =>
      have holding : property.holding = id := by
        funext item
        rw [Property.holding, list, if_neg Bool.false_ne_true, id]
      have notNull : ¬ data.isNull = true := by
        rintro isNull
        cases data <;> first | cases isNumber | cases isNull
      rw [if_neg Bool.false_ne_true, if_neg notNull, holding]
      cases Converter.integer.decode data property.dataType repository.graph <;> rfl

theorem decodeValue_of_whole {whole : Int} (isNumber : data.rational? = some (whole : ℚ)) :
    repository.decodeValue property data =
      .ok (property.holding (.integer (Int64.ofInt (clampInteger whole)))) := by
  rw [decodeValue_number builtIn isNumber,
    (decode_integer isNumber property.dataType repository.graph).1 whole rfl]
  rfl

theorem decodeValue_of_fraction (isNumber : data.rational? = some value)
    (fraction : ∀ whole : Int, value ≠ whole) :
    repository.decodeValue property data = .error (.value (.notInteger data.render)) := by
  rw [decodeValue_number builtIn isNumber,
    (decode_integer isNumber property.dataType repository.graph).2 fraction]
  rfl

/-- In the range of the integers a number is decoded as an integer exactly if it is that. -/
theorem decodeValue_eq_integer_iff (isNumber : data.rational? = some value)
    (atLeast : -(2 ^ 63) ≤ value) (below : value < 2 ^ 63) (content : Int64) :
    repository.decodeValue property data = .ok (property.holding (.integer content)) ↔
      (content.toInt : ℚ) = value := by
  constructor
  · intro decoded
    by_cases isWhole : ∃ whole : Int, value = whole
    · obtain ⟨whole, rfl⟩ := isWhole
      have isLeast : -(2 ^ 63) ≤ whole := by exact_mod_cast atLeast
      have isBelow : whole < 2 ^ 63 := by exact_mod_cast below
      have fits : fitsInteger whole = true := (fitsInteger_iff whole).mpr ⟨isLeast, isBelow⟩
      have clamped := decodeValue_of_whole builtIn isNumber
      have same := property.holding_injective (Except.ok.inj (clamped.symm.trans decoded))
      obtain rfl := Value.integer.inj same
      rw [clampInteger_of_fits whole fits, Int64.toInt_ofInt_of_le isLeast isBelow]
    · rw [decodeValue_of_fraction builtIn isNumber (not_exists.mp isWhole)] at decoded
      cases decoded
  · rintro rfl
    rw [decodeValue_of_whole builtIn isNumber,
      clampInteger_of_fits content.toInt (fitsInteger_toInt content), Int64.ofInt_toInt]

theorem decodeValue_of_large (isNumber : data.rational? = some value) (large : 2 ^ 63 ≤ value) :
    repository.decodeValue property data = .ok (property.holding (.integer Int64.maxValue)) := by
  obtain ⟨whole, rfl⟩ := exists_whole_of_rational? isNumber (large.trans (le_abs_self value))
  have isLarge : (negativeCount : Int) ≤ whole := by
    rw [negativeCount]
    exact_mod_cast large
  rw [decodeValue_of_whole builtIn isNumber, clampInteger_of_large isLarge]
  rfl

theorem decodeValue_of_small (isNumber : data.rational? = some value)
    (small : value < -(2 ^ 63)) :
    repository.decodeValue property data = .ok (property.holding (.integer Int64.minValue)) := by
  have large : 2 ^ 63 ≤ |value| := by
    rw [abs_of_neg (small.trans (by norm_num))]
    linarith
  obtain ⟨whole, rfl⟩ := exists_whole_of_rational? isNumber large
  have isSmall : whole < -(negativeCount : Int) := by
    rw [negativeCount]
    exact_mod_cast small
  rw [decodeValue_of_whole builtIn isNumber, clampInteger_of_small isSmall]
  rfl

theorem encodeValue_integer (content : Int64) :
    repository.encodeValue property (property.holding (.integer content)) =
      .ok (property.writing (.integer content.toInt)) := by
  rw [encodeValue, builtIn, ok_bind, Property.holding, Property.writing]
  cases list : property.list with
  | true =>
      simp only [if_true]
      rfl
  | false => rfl

end BuiltIn

/-- Numbers in a list are decoded one by one. -/
theorem decodeItems_integers {items : List Json} {contents : List Int64}
    (numbers : items.Forall₂ (fun item content => item.rational? = some (content.toInt : ℚ))
      contents) :
    repository.decodeItems Converter.integer property.dataType items =
      .ok (contents.map .integer) := by
  induction numbers with
  | nil => rfl
  | @cons item content _ _ isNumber _ inductionHypothesis =>
      obtain ⟨wholes, -⟩ := decode_integer isNumber property.dataType repository.graph
      have decoded := wholes content.toInt rfl
      rw [clampInteger_of_fits content.toInt (fitsInteger_toInt content),
        Int64.ofInt_toInt] at decoded
      rw [decodeItems, decoded, ok_bind, inductionHypothesis]
      rfl

/-- A number in the range of the integers is decoded as the integer that it is and written as the
same number, or it is refused because it has a fraction.  A number beyond the range is decoded as
the end of the range that is nearer. -/
theorem integer_decoded
    (builtIn : repository.converters.converterFor property.dataType = .ok Converter.integer)
    (isNumber : data.rational? = some value) :
    (-(2 ^ 63) ≤ value → value < 2 ^ 63 → ∀ content : Int64,
      repository.decodeValue property data = .ok (property.holding (.integer content)) ↔
        (content.toInt : ℚ) = value) ∧
    ((∀ whole : Int, value ≠ whole) →
      repository.decodeValue property data = .error (.value (.notInteger data.render))) ∧
    (2 ^ 63 ≤ value → repository.decodeValue property data =
      .ok (property.holding (.integer Int64.maxValue))) ∧
    (value < -(2 ^ 63) → repository.decodeValue property data =
      .ok (property.holding (.integer Int64.minValue))) ∧
    (∀ content : Int64,
      repository.encodeValue property (property.holding (.integer content)) =
        .ok (property.writing (.integer content.toInt)) ∧
      (Json.integer content.toInt).rational? = some (content.toInt : ℚ)) ∧
    ∀ items contents, property.list = true →
      List.Forall₂ (fun item (content : Int64) => item.rational? = some (content.toInt : ℚ))
        items contents →
      repository.decodeValue property (.array items) = .ok (.list (contents.map .integer)) := by
  refine ⟨decodeValue_eq_integer_iff builtIn isNumber, decodeValue_of_fraction builtIn isNumber,
    decodeValue_of_large builtIn isNumber, decodeValue_of_small builtIn isNumber,
    fun content => ⟨encodeValue_integer builtIn content, rational?_toInt content⟩,
    fun items contents list numbers => ?_⟩
  rw [decodeValue, builtIn, ok_bind, if_pos list]
  exact congrArg (Except.map Value.list) (decodeItems_integers numbers)

/-- A property for one integer. -/
def count : Property := .ofType (.primitive .integer)

theorem converterFor_count :
    empty.converters.converterFor count.dataType = .ok Converter.integer := rfl

/-- A whole double is decoded as the integer, one with a fraction is refused, and one that is too
large is decoded as the greatest integer. -/
theorem integer_decoded_count :
    empty.decodeValue count (.float 5e4) = .ok (.integer 50000) ∧
      empty.encodeValue count (.integer 50000) = .ok (.integer 50000) ∧
      empty.decodeValue count (.float 2.5) = .error (.value (.notInteger "2.5")) ∧
      empty.decodeValue count (.float 1e19) = .ok (.integer Int64.maxValue) := by
  have whole : (Json.float 5e4).rational? = some ((50000 : Int) : ℚ) :=
    (wholeNumber?_eq_some_iff 5e4 50000).mp (by decide)
  have large : (Json.float 1e19).rational? = some ((10000000000000000000 : Int) : ℚ) :=
    (wholeNumber?_eq_some_iff 1e19 10000000000000000000).mp (by decide)
  obtain ⟨value, isValue⟩ : ∃ value, (Json.float 2.5).rational? = some value :=
    Option.isSome_iff_exists.mp (by decide)
  have fraction (whole : Int) : value ≠ whole := by
    rintro rfl
    have notWhole : wholeNumber? 2.5 = none := by decide
    cases notWhole.symm.trans ((wholeNumber?_eq_some_iff 2.5 whole).mpr isValue)
  have shown : (Json.float 2.5).render = "2.5" := by decide
  obtain ⟨exact, -, -, -, written, -⟩ := integer_decoded converterFor_count whole
  obtain ⟨-, refused, -⟩ := integer_decoded converterFor_count isValue
  obtain ⟨-, -, clamped, -⟩ := integer_decoded converterFor_count large
  refine ⟨(exact (by norm_num) (by norm_num) 50000).mpr rfl, (written 50000).1, ?_,
    clamped (by norm_num)⟩
  rw [refused fraction, shown]

/-- Data one above the greatest integer is decoded as that, and written as another number. -/
theorem exceeding_number_altered :
    let data := Json.integer 9223372036854775808
    data.rational? = some 9223372036854775808 ∧
      empty.decodeValue count data = .ok (.integer Int64.maxValue) ∧
      (Int64.maxValue.toInt : ℚ) ≠ 9223372036854775808 ∧
      empty.encodeValue count (.integer Int64.maxValue) =
        .ok (.integer 9223372036854775807) := by
  intro data
  have isNumber : data.rational? = some ((9223372036854775808 : Int) : ℚ) := rfl
  exact ⟨isNumber, decodeValue_of_large converterFor_count isNumber (by norm_num),
    by decide, rfl⟩

end Repository

end LifecycleGraph
