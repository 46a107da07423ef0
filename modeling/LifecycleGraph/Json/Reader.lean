import LifecycleGraph.Collection.Named
import LifecycleGraph.Json.Basic
import LifecycleGraph.Decimal.Reader

/-!
# Reading configuration data

Data is read from text by the usual grammar.  A number without point and
exponent that fits sixty-four bits, with or without sign, is an integer; any
other is a double.  The double is scaled: as many leading digits as sixty-four
bits hold, read as a whole number, are multiplied or divided once by a power of
ten, and a result beyond every double is refused.
-/

set_option autoImplicit false

namespace LifecycleGraph.Json

def skipBlank (text : List Char) : List Char :=
  text.dropWhile fun c => c = ' ' || c = '\n' || c = '\t' || c = '\r'

structure Significand where
  value : Nat
  exponent : Int
  full : Bool

/-- Takes one more digit in, while sixty-four bits hold the number; a digit
that is left out moves the exponent when it stands before the point. -/
def Significand.take (fraction : Bool) (number : Significand) (figure : Char) : Significand :=
  let next := 10 * number.value + (figure.toNat - '0'.toNat)
  if number.full || !Decimal.fitsWord next then
    ⟨number.value, if fraction then number.exponent else number.exponent + 1, true⟩
  else ⟨next, if fraction then number.exponent - 1 else number.exponent, false⟩

def powerOfTen (exponent : Nat) : Float := Float.ofScientific 1 false exponent

/-- The double `start * 10 ^ exponent`, in steps when the exponent is below the
least power of ten. -/
def scaleFloat : Nat → Float → Int → Option Float
  | 0, _, _ => none
  | steps + 1, start, exponent =>
      if exponent.natAbs ≤ 308 then
        if 0 ≤ exponent then
          let result := start * powerOfTen exponent.natAbs
          if result.isInf then none else some result
        else some (start / powerOfTen exponent.natAbs)
      else if start == 0 then some start
      else if 0 ≤ exponent then none
      else scaleFloat steps (start / powerOfTen 308) (exponent + 308)

/-- The double of a significand and an exponent; below the exponent -1300 every
significand of sixty-four bits has come down to zero. -/
def Significand.float? (number : Significand) (negative : Bool) (exponent : Int) :
    Option Float :=
  let scaled := number.exponent + exponent
  let magnitude :=
    if scaled < -1300 then some 0
    else scaleFloat 8 (Float.ofNat number.value) scaled
  magnitude.map fun value => if negative then -value else value

def readExponent? : List Char → Option (Option Int × List Char)
  | mark :: rest =>
      if mark = 'e' || mark = 'E' then
        let (negative, figures) := Decimal.readSign rest
        let taken := figures.takeWhile Char.isDigit
        if taken.isEmpty then none
        else
          let magnitude : Int := Decimal.naturalFrom 0 taken
          some (some (if negative then -magnitude else magnitude),
            figures.dropWhile Char.isDigit)
      else some (none, mark :: rest)
  | [] => some (none, [])

/-- A whole part has no leading zero. -/
def plainWhole : List Char → Bool
  | [] => false
  | [_] => true
  | first :: _ => first ≠ '0'

def wholeNumber? (negative : Bool) (whole : List Char) : Option Json :=
  let value := Decimal.naturalFrom 0 whole
  if Decimal.fitsWord value then
    if negative then
      if value = 0 || Decimal.negativeCount < value then some (.float (-Float.ofNat value))
      else some (.integer (-value))
    else some (.integer value)
  else
    let number := whole.foldl (Significand.take false) ⟨0, 0, false⟩
    (number.float? negative 0).map .float

/-- A number with a point or an exponent. -/
def pointNumber? (negative : Bool) (whole fraction : List Char) (exponent : Int) :
    Option Json :=
  let number := whole.foldl (Significand.take false) ⟨0, 0, false⟩
  let number := fraction.foldl (Significand.take true) ⟨number.value, number.exponent, false⟩
  (number.float? negative exponent).map .float

def readNumber? (text : List Char) : Option (Json × List Char) :=
  let (negative, unsigned) := match text with
    | '-' :: rest => (true, rest)
    | other => (false, other)
  let whole := unsigned.takeWhile Char.isDigit
  if !plainWhole whole then none
  else
    match unsigned.dropWhile Char.isDigit with
    | '.' :: rest =>
        let fraction := rest.takeWhile Char.isDigit
        if fraction.isEmpty then none
        else
          match readExponent? (rest.dropWhile Char.isDigit) with
          | none => none
          | some (exponent, rest) =>
              (pointNumber? negative whole fraction (exponent.getD 0)).map (·, rest)
    | rest =>
        match readExponent? rest with
        | none => none
        | some (some exponent, rest) =>
            (pointNumber? negative whole [] exponent).map (·, rest)
        | some (none, rest) => (wholeNumber? negative whole).map (·, rest)

def hexValue? (character : Char) : Option Nat :=
  if character.isDigit then some (character.toNat - '0'.toNat)
  else if 'a' ≤ character && character ≤ 'f' then some (character.toNat - 'a'.toNat + 10)
  else if 'A' ≤ character && character ≤ 'F' then some (character.toNat - 'A'.toNat + 10)
  else none

def readUnit? : List Char → Option (Nat × List Char)
  | a :: b :: c :: d :: rest => do
      let a ← hexValue? a
      let b ← hexValue? b
      let c ← hexValue? c
      let d ← hexValue? d
      some (((a * 16 + b) * 16 + c) * 16 + d, rest)
  | _ => none

/-- The character of a code unit, taking the second unit of a pair along. -/
def readEscapedUnit? (text : List Char) : Option (Char × List Char) := do
  let (unit, rest) ← readUnit? text
  if 0xD800 ≤ unit && unit < 0xDC00 then
    match rest with
    | '\\' :: 'u' :: rest =>
        let (low, rest) ← readUnit? rest
        if 0xDC00 ≤ low && low < 0xE000 then
          some (Char.ofNat (0x10000 + (unit - 0xD800) * 0x400 + (low - 0xDC00)), rest)
        else none
    | _ => none
  else if 0xDC00 ≤ unit && unit < 0xE000 then none
  else some (Char.ofNat unit, rest)

/-- The characters up to the closing quote; the fuel is the length of the text. -/
def readTextFrom : Nat → List Char → List Char → Option (String × List Char)
  | 0, _, _ => none
  | _, _, [] => none
  | fuel + 1, read, '\\' :: escape :: rest =>
      match escape with
      | 'u' => do
          let (character, rest) ← readEscapedUnit? rest
          readTextFrom fuel (character :: read) rest
      | 'n' => readTextFrom fuel ('\n' :: read) rest
      | 'r' => readTextFrom fuel ('\r' :: read) rest
      | 't' => readTextFrom fuel ('\t' :: read) rest
      | 'b' => readTextFrom fuel (Char.ofNat 0x08 :: read) rest
      | 'f' => readTextFrom fuel (Char.ofNat 0x0C :: read) rest
      | other =>
          if other = '"' || other = '\\' || other = '/' then
            readTextFrom fuel (other :: read) rest
          else none
  | fuel + 1, read, character :: rest =>
      if character = '"' then some (String.ofList read.reverse, rest)
      else if character = '\\' || character.toNat < 0x20 then none
      else readTextFrom fuel (character :: read) rest

/-- A quoted text, read behind its opening quote. -/
def readText? (text : List Char) : Option (String × List Char) :=
  readTextFrom (text.length + 1) [] text

def afterWord? : List Char → List Char → Option (List Char)
  | [], rest => some rest
  | c :: word, d :: rest => if c = d then afterWord? word rest else none
  | _ :: _, [] => none

/-- What remains to be read of nested data. -/
inductive Frame where
  | items (read : List Json)
  | members (read : Members) (key : String)

/-- A finished value, handed to the lists and objects around it. -/
inductive Progress where
  | expect (frames : List Frame) (rest : List Char)
  | done (value : Json) (rest : List Char)

def readKey? (text : List Char) : Option (String × List Char) :=
  match skipBlank text with
  | '"' :: rest => do
      let (key, rest) ← readText? rest
      match skipBlank rest with
      | ':' :: rest => some (key, rest)
      | _ => none
  | _ => none

/-- Closes every list and object that ends behind a value; the fuel is the
number of frames. -/
def settle? : List Frame → Json → List Char → Option Progress
  | [], value, rest => some (.done value rest)
  | .items read :: frames, value, rest =>
      match skipBlank rest with
      | ',' :: rest => some (.expect (.items (value :: read) :: frames) rest)
      | ']' :: rest => settle? frames (.array (value :: read).reverse) rest
      | _ => none
  | .members read key :: frames, value, rest =>
      match skipBlank rest with
      | ',' :: rest => do
          let (next, rest) ← readKey? rest
          some (.expect (.members (putNamed key value read) next :: frames) rest)
      | '\x7d' :: rest => settle? frames (.object (putNamed key value read)) rest
      | _ => none

/-- The data at the head of a text and what follows it; each step consumes a
character, so the length of the text is fuel enough. -/
def readFrom : Nat → List Frame → List Char → Option (Json × List Char)
  | 0, _, _ => none
  | fuel + 1, frames, source =>
      let finish (value : Json) (rest : List Char) : Option (Json × List Char) := do
        match ← settle? frames value rest with
        | .done value rest => some (value, rest)
        | .expect frames rest => readFrom fuel frames rest
      match skipBlank source with
      | [] => none
      | 'n' :: rest => do finish .null (← afterWord? ['u', 'l', 'l'] rest)
      | 't' :: rest => do finish (.boolean true) (← afterWord? ['r', 'u', 'e'] rest)
      | 'f' :: rest => do finish (.boolean false) (← afterWord? ['a', 'l', 's', 'e'] rest)
      | '"' :: rest => do
          let (value, rest) ← readText? rest
          finish (.text value) rest
      | '[' :: rest =>
          match skipBlank rest with
          | ']' :: rest => finish (.array []) rest
          | rest => readFrom fuel (.items [] :: frames) rest
      | '\x7b' :: rest =>
          match skipBlank rest with
          | '\x7d' :: rest => finish (.object []) rest
          | rest => do
              let (key, rest) ← readKey? rest
              readFrom fuel (.members [] key :: frames) rest
      | number => do
          let (value, rest) ← readNumber? number
          finish value rest

def read? (text : String) : Option Json := do
  let characters := text.toList
  let (value, rest) ← readFrom (characters.length + 1) [] characters
  if (skipBlank rest).isEmpty then some value else none

end LifecycleGraph.Json
