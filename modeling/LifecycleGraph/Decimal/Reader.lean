import LifecycleGraph.Decimal.Word

/-!
# Numbers read from text

An integer is an optional sign and digits.  A floating-point number is an
optional sign and then a name of infinity, the name of the value that is no
number, or digits with an optional point and an optional exponent; the result
is the double nearest to the decimal.
-/

set_option autoImplicit false

namespace LifecycleGraph.Decimal

/-- The number that digits stand for, continued from the digits before them. -/
def naturalFrom (start : Nat) (figures : List Char) : Nat :=
  figures.foldl (fun value figure => 10 * value + (figure.toNat - '0'.toNat)) start

def readSign : List Char → Bool × List Char
  | '-' :: rest => (true, rest)
  | '+' :: rest => (false, rest)
  | text => (false, text)

/-- An integer of sixty-four bits: an optional sign and at least one digit. -/
def readInteger? (text : List Char) : Option Int :=
  let (negative, figures) := readSign text
  if figures.isEmpty || !figures.all Char.isDigit then none
  else
    let magnitude : Int := naturalFrom 0 figures
    let number := if negative then -magnitude else magnitude
    if fitsInteger number then some number else none

/-- The double nearest to `significand * 10 ^ exponent`.  A decimal whose
leading digit lies four hundred places from the point is beyond every double,
or nearer to zero than to any other. -/
def nearestFloat (significand : Nat) (exponent : Int) : Float :=
  let leading := (Nat.toDigits 10 significand).length + exponent
  if significand = 0 then 0
  else if 400 < leading then Float.ofBits 0x7FF0000000000000
  else if leading < -400 then 0
  else Float.ofScientific significand (decide (exponent < 0)) exponent.natAbs

def readExponent? : List Char → Option Int
  | [] => some 0
  | mark :: rest =>
      if mark = 'e' || mark = 'E' then
        let (negative, figures) := readSign rest
        if figures.isEmpty || !figures.all Char.isDigit then none
        else
          let magnitude : Int := naturalFrom 0 figures
          some (if negative then -magnitude else magnitude)
      else none

def readMagnitude? (text : List Char) : Option Float :=
  let whole := text.takeWhile Char.isDigit
  let (fraction, rest) := match text.dropWhile Char.isDigit with
    | '.' :: rest => (rest.takeWhile Char.isDigit, rest.dropWhile Char.isDigit)
    | rest => ([], rest)
  if whole.isEmpty && fraction.isEmpty then none
  else
    (readExponent? rest).map fun exponent =>
      nearestFloat (naturalFrom 0 (whole ++ fraction)) (exponent - fraction.length)

def readFloat? (text : List Char) : Option Float :=
  let (negative, magnitude) := readSign text
  let number :=
    match String.ofList (magnitude.map Char.toLower) with
    | "inf" => some (Float.ofBits 0x7FF0000000000000)
    | "infinity" => some (Float.ofBits 0x7FF0000000000000)
    | "nan" => some (Float.ofBits 0x7FF8000000000000)
    | _ => readMagnitude? magnitude
  number.map fun value => if negative then -value else value

end LifecycleGraph.Decimal
