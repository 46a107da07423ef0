import LifecycleGraph.Json.Basic
import LifecycleGraph.Decimal.Layout

/-!
# The text of configuration data

Data is written without blanks, members in their order.  In a text the quote,
the backslash and the control characters below U+0020 are escaped, all else
stands as it is.
-/

set_option autoImplicit false

namespace LifecycleGraph.Json

def hexByte (code : Nat) : List Char :=
  [Nat.digitChar (code / 16), Nat.digitChar (code % 16)]

/-- The written form of one character inside a quoted text. -/
def escapeChar (character : Char) : List Char :=
  if character = '"' then ['\\', '"']
  else if character = '\\' then ['\\', '\\']
  else if character = '\n' then ['\\', 'n']
  else if character = '\r' then ['\\', 'r']
  else if character = '\t' then ['\\', 't']
  else if character.toNat = 0x08 then ['\\', 'b']
  else if character.toNat = 0x0C then ['\\', 'f']
  else if character.toNat < 0x20 then '\\' :: 'u' :: '0' :: '0' :: hexByte character.toNat
  else [character]

def quoted (text : String) : String :=
  "\"" ++ String.ofList (text.toList.flatMap escapeChar) ++ "\""

def booleanText (value : Bool) : String := if value then "true" else "false"

mutual
def render : Json → String
  | null => "null"
  | boolean value => booleanText value
  | integer value => Decimal.integerText value
  | float value => Decimal.floatText .configuration value
  | text value => quoted value
  | array items => "[" ++ renderItems items ++ "]"
  | object members => "\x7b" ++ renderMembers members ++ "\x7d"

def renderItems : List Json → String
  | [] => ""
  | [item] => render item
  | item :: next :: rest => render item ++ "," ++ renderItems (next :: rest)

def renderMembers : List (String × Json) → String
  | [] => ""
  | [(key, value)] => quoted key ++ ":" ++ render value
  | (key, value) :: next :: rest =>
      quoted key ++ ":" ++ render value ++ "," ++ renderMembers (next :: rest)
end

end LifecycleGraph.Json
