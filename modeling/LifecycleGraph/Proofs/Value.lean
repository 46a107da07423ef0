import LifecycleGraph.Proofs.Decimal.Comparison

/-!
# Values that count as equal

Loose equality compares integers with each other as they are, and with doubles as doubles.  It is
symmetric, reflexive where no double is missing a value, and reversed comparisons are opposite.
It is transitive up to integers that go to one double: two such integers equal the double, and
not each other.
-/

set_option autoImplicit false

namespace LifecycleGraph

namespace Value

open Decimal

mutual
/-- Every double, at any depth, is a number or infinite. -/
def hasNumbers : Value → Bool
  | number value => !value.isNaN
  | list items => hasNumbersItems items
  | _ => true

def hasNumbersItems : List Value → Bool
  | [] => true
  | item :: rest => item.hasNumbers && hasNumbersItems rest
end

mutual
/-- The integers of a value, at any depth. -/
def integers : Value → List Int64
  | integer value => [value]
  | list items => integersItems items
  | _ => []

def integersItems : List Value → List Int64
  | [] => []
  | item :: rest => item.integers ++ integersItems rest
end

mutual
/-- Where both values have an integer in the same place, their doubles tell whether it is the same
one. -/
def Sharp : Value → Value → Prop
  | integer a, integer b =>
      compareFloat? (Float.ofInt a.toInt) (Float.ofInt b.toInt) = some .eq → a = b
  | list as, list bs => SharpItems as bs
  | _, _ => True

def SharpItems : List Value → List Value → Prop
  | a :: as, b :: bs => a.Sharp b ∧ SharpItems as bs
  | _, _ => True
end

section Equations

variable (a b : Value) (as bs : List Value)

theorem looseEq_list : (list as).looseEq (list bs) = looseEqItems as bs :=
  rfl

theorem looseEqItems_cons :
    looseEqItems (a :: as) (b :: bs) = (a.looseEq b && looseEqItems as bs) :=
  rfl

theorem sharp_list : (list as).Sharp (list bs) = SharpItems as bs :=
  rfl

theorem sharpItems_cons : SharpItems (a :: as) (b :: bs) = (a.Sharp b ∧ SharpItems as bs) :=
  rfl

theorem same_number (x y : Float) : (number x).same (number y) = (x == y) :=
  rfl

variable {a}

/-- A value that is no list equals what compares as equal, or is the same where nothing
compares. -/
theorem looseEq_of_not_list (notList : ∀ items, a ≠ list items) :
    a.looseEq b =
      match a.compare? b with
      | some order => order == .eq
      | none => a.same b := by
  cases a with
  | list items => exact absurd rfl (notList items)
  | _ => cases b <;> rfl

end Equations

/-! ## Comparing -/

theorem abs_toInt_lt (content : Int64) : |content.toInt| < 2 ^ 64 := by
  have least := content.le_toInt
  have greatest := content.toInt_lt
  rw [abs_lt]
  omega

theorem isNaN_double (content : Int64) : (Float.ofInt content.toInt).isNaN = false :=
  isNaN_ofInt (abs_toInt_lt content)

theorem swap_compare? (a b : Value) : (a.compare? b).map Ordering.swap = b.compare? a := by
  cases a <;> cases b <;>
    simp only [compare?, float?, Option.map_some, Option.map_none, swap_compareFloat?,
      ← Std.OrientedOrd.eq_swap]

/-! ## Values that are no lists -/

theorem same_number_iff (x y : Float) :
    same (number x) (number y) = true ↔ compareFloat? x y = some .eq := by
  rw [same_number, compareFloat?_eq]
  exact beq_iff_eq (a := x.toModel.unpack.compare y.toModel.unpack)

/-- Numeric values are equal if their doubles compare as equal, and integers if they are the
same. -/
theorem looseEq_iff_of_float? {a b : Value} {x y : Float} (isX : a.float? = some x)
    (isY : b.float? = some y) :
    a.looseEq b = true ↔ compareFloat? x y = some .eq ∧ a.Sharp b := by
  have notList : ∀ items, a ≠ list items := by
    rintro items rfl
    cases isX
  rw [looseEq_of_not_list b notList]
  cases a <;> cases isX <;> cases b <;> cases isY <;>
    simp only [compare?, float?, Sharp, and_true]
  case number.refl.number.refl =>
    cases order : compareFloat? x y with
    | none => simp [same_number_iff, order]
    | some order => simp
  case number.refl.integer.refl content =>
    cases compareFloat? x (Float.ofInt content.toInt) with
    | none => exact iff_of_false Bool.false_ne_true nofun
    | some order => simp
  case integer.refl.number.refl content =>
    cases compareFloat? (Float.ofInt content.toInt) y with
    | none => exact iff_of_false Bool.false_ne_true nofun
    | some order => simp
  case integer.refl.integer.refl content other =>
    rw [beq_iff_eq, Std.compare_eq_iff_eq]
    constructor
    · rintro rfl
      exact ⟨(compareFloat?_self_iff _).mpr (isNaN_double content), fun _ => rfl⟩
    · exact fun both => both.2 both.1

/-- A value that is neither numeric nor a list is equal to itself only. -/
theorem looseEq_iff_of_not_float? {a b : Value} (notNumeric : a.float? = none)
    (notList : ∀ items, a ≠ list items) : a.looseEq b = true ↔ a = b := by
  cases a with
  | number value => cases notNumeric
  | integer value => cases notNumeric
  | list items => exact absurd rfl (notList items)
  | _ =>
      rw [looseEq_of_not_list b notList]
      cases b <;> simp [compare?, float?, same]

/-- How values that are no lists are equal: by their doubles, where integers are the same, or as
the same value. -/
inductive Level : Value → Value → Prop where
  | numeric {a b : Value} {x y : Float} : a.float? = some x → b.float? = some y →
      compareFloat? x y = some .eq → a.Sharp b → Level a b
  | same {a : Value} : a.float? = none → (∀ items, a ≠ list items) → Level a a

theorem looseEq_iff_level {a : Value} (notList : ∀ items, a ≠ list items) (b : Value) :
    a.looseEq b = true ↔ a.Level b := by
  constructor
  · intro equal
    cases isX : a.float? with
    | none =>
        obtain rfl := (looseEq_iff_of_not_float? isX notList).mp equal
        exact .same isX notList
    | some x =>
        cases isY : b.float? with
        | none => cases a <;> cases isX <;> cases b <;> cases isY <;> cases equal
        | some y =>
            obtain ⟨level, sharp⟩ := (looseEq_iff_of_float? isX isY).mp equal
            exact .numeric isX isY level sharp
  · intro level
    cases level with
    | same notNumeric => exact (looseEq_iff_of_not_float? notNumeric notList).mpr rfl
    | numeric isX isY level sharp => exact (looseEq_iff_of_float? isX isY).mpr ⟨level, sharp⟩

theorem looseEq_list_iff (as : List Value) (b : Value) :
    (list as).looseEq b = true ↔ ∃ bs, b = list bs ∧ looseEqItems as bs = true := by
  cases b with
  | list bs =>
      rw [looseEq_list]
      exact ⟨fun equal => ⟨bs, rfl, equal⟩, fun ⟨_, same, equal⟩ => list.inj same ▸ equal⟩
  | _ => exact iff_of_false Bool.false_ne_true (by simp)

/-! ## Laws -/

mutual
theorem looseEq_self_iff (a : Value) : a.looseEq a = true ↔ a.hasNumbers = true := by
  cases a with
  | number value =>
      rw [looseEq_iff_of_float? rfl rfl, compareFloat?_self_iff]
      simp [Sharp, hasNumbers]
  | integer value =>
      rw [looseEq_iff_of_float? rfl rfl, compareFloat?_self_iff, isNaN_double]
      simp [Sharp, hasNumbers]
  | list items =>
      rw [looseEq_list, hasNumbers]
      exact looseEqItems_self_iff items
  | _ =>
      rw [looseEq_iff_of_not_float? rfl (by simp)]
      simp [hasNumbers]

theorem looseEqItems_self_iff (items : List Value) :
    looseEqItems items items = true ↔ hasNumbersItems items = true := by
  cases items with
  | nil => exact iff_of_true rfl rfl
  | cons item rest =>
      simp only [looseEqItems_cons, hasNumbersItems, Bool.and_eq_true, looseEq_self_iff item,
        looseEqItems_self_iff rest]
end

namespace Level

variable {a b c : Value}

theorem ne_list (level : a.Level b) (items : List Value) : b ≠ list items := by
  cases level with
  | same _ notList => exact notList items
  | numeric _ isY =>
      rintro rfl
      cases isY

theorem symm (level : a.Level b) : b.Level a := by
  cases level with
  | same notNumeric notList => exact .same notNumeric notList
  | numeric isX isY level sharp =>
      refine .numeric isY isX ?_ ?_
      · rw [← swap_compareFloat?, level]
        rfl
      · cases a <;> cases isX <;> cases b <;> cases isY <;> try trivial
        exact fun _ => (sharp level).symm

/-- Only two integers that go to the same double may be equal to it and not to each other. -/
theorem trans_iff (first : a.Level b) (second : b.Level c) : a.Level c ↔ a.Sharp c := by
  cases first with
  | same notNumeric notList =>
      refine iff_of_true second ?_
      cases second with
      | same => cases a <;> first | trivial | exact absurd rfl (notList _)
      | numeric isX => cases notNumeric.symm.trans isX
  | numeric isX isY level sharp =>
      cases second with
      | same notNumeric => cases notNumeric.symm.trans isY
      | numeric isY' isZ level' sharp' =>
          obtain rfl := Option.some.inj (isY.symm.trans isY')
          have equal := (compareFloat?_of_equal level _).trans level'
          refine ⟨fun whole => ?_, .numeric isX isZ equal⟩
          cases whole with
          | same notNumeric => cases notNumeric.symm.trans isX
          | numeric _ _ _ sharp => exact sharp

end Level

mutual
theorem looseEq_symm (a b : Value) (equal : a.looseEq b = true) : b.looseEq a = true := by
  cases a with
  | list as =>
      obtain ⟨bs, rfl, equal⟩ := (looseEq_list_iff as b).mp equal
      rw [looseEq_list]
      exact looseEqItems_symm as bs equal
  | _ =>
      have level := (looseEq_iff_level (by simp) b).mp equal
      exact (looseEq_iff_level level.ne_list _).mpr level.symm

theorem looseEqItems_symm (as bs : List Value) (equal : looseEqItems as bs = true) :
    looseEqItems bs as = true := by
  cases as with
  | nil =>
      cases bs with
      | nil => rfl
      | cons b rest => cases equal
  | cons a others =>
      cases bs with
      | nil => cases equal
      | cons b rest =>
          rw [looseEqItems_cons, Bool.and_eq_true] at equal ⊢
          exact ⟨looseEq_symm a b equal.1, looseEqItems_symm others rest equal.2⟩
end

mutual
theorem looseEq_trans_iff (a b c : Value) (first : a.looseEq b = true)
    (second : b.looseEq c = true) : a.looseEq c = true ↔ a.Sharp c := by
  cases a with
  | list as =>
      obtain ⟨bs, rfl, first⟩ := (looseEq_list_iff as b).mp first
      obtain ⟨cs, rfl, second⟩ := (looseEq_list_iff bs c).mp second
      rw [looseEq_list, sharp_list]
      exact looseEqItems_trans_iff as bs cs first second
  | _ =>
      have level := (looseEq_iff_level (by simp) b).mp first
      have level' := (looseEq_iff_level level.ne_list c).mp second
      rw [looseEq_iff_level (by simp), level.trans_iff level']

theorem looseEqItems_trans_iff (as bs cs : List Value) (first : looseEqItems as bs = true)
    (second : looseEqItems bs cs = true) : looseEqItems as cs = true ↔ SharpItems as cs := by
  cases as with
  | nil =>
      cases bs with
      | nil => exact iff_of_true second trivial
      | cons b rest => cases first
  | cons a others =>
      cases bs with
      | nil => cases first
      | cons b rest =>
          cases cs with
          | nil => cases second
          | cons c last =>
              rw [looseEqItems_cons, Bool.and_eq_true] at first second ⊢
              rw [sharpItems_cons, looseEq_trans_iff a b c first.1 second.1,
                looseEqItems_trans_iff others rest last first.2 second.2]
end

mutual
/-- Doubles tell small integers apart from all others. -/
theorem sharp_of_small (a b : Value) (small : ∀ content ∈ a.integers, |content.toInt| < 2 ^ 53) :
    a.Sharp b := by
  cases a with
  | integer content =>
      cases b with
      | integer other =>
          intro equal
          have isSmall := small content (by simp [integers])
          exact Int64.toInt_inj.mp (eq_of_compareFloat?_ofInt isSmall (abs_toInt_lt other) equal)
      | _ => trivial
  | list as =>
      cases b with
      | list bs => exact sharpItems_of_small as bs small
      | _ => trivial
  | _ => cases b <;> trivial

theorem sharpItems_of_small (as bs : List Value)
    (small : ∀ content ∈ integersItems as, |content.toInt| < 2 ^ 53) : SharpItems as bs := by
  cases as with
  | nil => cases bs <;> trivial
  | cons a others =>
      cases bs with
      | nil => trivial
      | cons b rest =>
          rw [integersItems] at small
          exact ⟨sharp_of_small a b fun content member => small content (by simp [member]),
            sharpItems_of_small others rest fun content member => small content (by simp [member])⟩
end

/-- A comparison that comes to an answer comes to equality exactly if the values are equal. -/
theorem looseEq_of_compare? {a b : Value} {order : Ordering}
    (compared : a.compare? b = some order) : a.looseEq b = true ↔ order = .eq := by
  have notList : ∀ items, a ≠ list items := by
    rintro items rfl
    cases b <;> cases compared
  simp only [looseEq_of_not_list b notList, compared, beq_iff_eq]

/-- Comparisons are reversed when the values are exchanged, and where they come to an answer it is
equality exactly if the values are equal.  Being equal is symmetric, and reflexive for the values
in which every double is a number; two values that equal a third one are equal exactly if doubles
tell their integers apart, which they do for all integers below two to the fifty-third. -/
theorem values_compared (a b c : Value) :
    b.compare? a = (a.compare? b).map Ordering.swap ∧
      (∀ order, a.compare? b = some order → (a.looseEq b = true ↔ order = .eq)) ∧
      (a.looseEq a = true ↔ a.hasNumbers = true) ∧
      (a.looseEq b = true ↔ b.looseEq a = true) ∧
      (a.looseEq b = true → b.looseEq c = true → (a.looseEq c = true ↔ a.Sharp c)) ∧
      ((∀ content ∈ a.integers, |content.toInt| < 2 ^ 53) → a.Sharp c) :=
  ⟨(swap_compare? a b).symm, fun _ => looseEq_of_compare?, looseEq_self_iff a,
    ⟨looseEq_symm a b, looseEq_symm b a⟩, looseEq_trans_iff a b c, sharp_of_small a c⟩

/-- A list of values of all kinds, with an integer. -/
def ofInteger : Value :=
  .list [.integer 4, .null, .text "four", .boolean true, .tag ⟨4⟩, .node ⟨4⟩, .list [.integer (-4)]]

/-- The same list with doubles in the places of the integers. -/
def ofDouble : Value :=
  .list [.number 4, .null, .text "four", .boolean true, .tag ⟨4⟩, .node ⟨4⟩, .list [.number (-4)]]

/-- Lists in which integers stand against the doubles of their sizes are equal either way, and so
are the lists that equal the same one. -/
theorem values_compared_integersAndDoubles :
    ofInteger.looseEq ofDouble = true ∧ ofDouble.looseEq ofInteger = true ∧
      ofInteger.looseEq ofInteger = true ∧
      (integer 4).compare? (number 4.5) = some .lt ∧
      (number 4.5).compare? (integer 4) = some .gt := by
  have equal : ofInteger.looseEq ofDouble = true := by decide
  have less : (integer 4).compare? (number 4.5) = some .lt := by decide
  have small : ∀ content ∈ ofInteger.integers, |content.toInt| < 2 ^ 53 := by
    simp [ofInteger, integers, integersItems]
  obtain ⟨-, -, -, symmetric, transitive, sharp⟩ := values_compared ofInteger ofDouble ofInteger
  have back := symmetric.mp equal
  refine ⟨equal, back, (transitive equal back).mpr (sharp small), less, ?_⟩
  rw [(values_compared (integer 4) (number 4.5) .null).1, less]
  rfl

/-- Two neighbouring integers equal one double, but not each other, and the greater one compares
as equal to the double of the smaller one. -/
theorem large_integers_confused :
    let smaller := integer 9007199254740992
    let double := number 9007199254740992
    let greater := integer 9007199254740993
    (smaller.hasNumbers && double.hasNumbers && greater.hasNumbers) = true ∧
      smaller.looseEq double = true ∧ double.looseEq greater = true ∧
      smaller.looseEq greater = false ∧ smaller.compare? greater = some .lt ∧
      greater.compare? double = some .eq := by
  decide

end Value

end LifecycleGraph
