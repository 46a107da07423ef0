import LifecycleGraph.Decimal.Shortest

/-!
# Written numbers

A floating-point number is written with its shortest digits.  Where the point
stands and when an exponent is used is one record per kind of output: one
for configuration text and one for messages.
-/

set_option autoImplicit false

namespace LifecycleGraph.Decimal

/-- The decisions of a kind of output.  A number keeps its digits in place when
the exponent of its leading digit lies in the half-open range `placed`, and
always where no range is given. -/
structure Layout where
  placed : Option (Int × Int)
  wholeWithPoint : Bool
  tie : Tie

/-- Configuration text: digits in place from `10 ^ -5` to below `10 ^ 16`,
always with a digit after the point; else an exponent with its sign. -/
def Layout.configuration : Layout := ⟨some (-5, 16), true, .toEven⟩

/-- Messages: digits in place, and no point behind a whole number. -/
def Layout.message : Layout := ⟨none, false, .upward⟩

def digits (number : Nat) : List Char := Nat.toDigits 10 number

def integerText (number : Int) : String :=
  if number < 0 then "-" ++ String.ofList (digits number.natAbs)
  else String.ofList (digits number.natAbs)

/-- Digits in place: zeros fill up to the point on either side. -/
def placedText (style : Layout) (decimal : Scaled) : List Char :=
  let figures := digits decimal.significand
  if 0 ≤ decimal.exponent then
    let whole := figures ++ List.replicate decimal.exponent.toNat '0'
    if style.wholeWithPoint then whole ++ ['.', '0'] else whole
  else
    let places := (-decimal.exponent).toNat
    if figures.length ≤ places then
      '0' :: '.' :: (List.replicate (places - figures.length) '0' ++ figures)
    else
      figures.take (figures.length - places) ++ '.' :: figures.drop (figures.length - places)

/-- One digit before the point, and the exponent of that digit with its sign. -/
def exponentText (decimal : Scaled) (leading : Int) : List Char :=
  let figures := digits decimal.significand
  let sign := if leading < 0 then '-' else '+'
  let fraction := match figures.drop 1 with
    | [] => []
    | rest => '.' :: rest
  figures.take 1 ++ fraction ++ 'e' :: sign :: digits leading.natAbs

def Scaled.render (style : Layout) (decimal : Scaled) : List Char :=
  let leading := decimal.exponent + (digits decimal.significand).length - 1
  match style.placed with
  | none => placedText style decimal
  | some (first, limit) =>
      if decimal.significand = 0 || (decide (first ≤ leading) && decide (leading < limit)) then
        placedText style decimal
      else exponentText decimal leading

/-- A floating-point number as text; a negative zero keeps its sign. -/
def floatText (style : Layout) (number : Float) : String :=
  if number.isNaN then "NaN"
  else
    let bits := number.toBits
    let sign := if bits >>> 63 == 1 then ['-'] else []
    let magnitude :=
      if number.isInf then ['i', 'n', 'f']
      else ((Binary.ofBits bits).shortest style.tie).render style
    String.ofList (sign ++ magnitude)

end LifecycleGraph.Decimal
