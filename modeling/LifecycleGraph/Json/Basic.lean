/-!
# Configuration data

The data of configurations: null, truth values, integers, floating-point
numbers, texts, lists, and objects whose members keep their order.  Integers
and floating-point numbers are told apart, also where they have the same value.
-/

set_option autoImplicit false

namespace LifecycleGraph

inductive Json where
  | null
  | boolean (value : Bool)
  | integer (value : Int)
  | float (value : Float)
  | text (value : String)
  | array (items : List Json)
  | object (members : List (String × Json))
deriving Inhabited

namespace Json

/-- The members of an object, in order. -/
abbrev Members := List (String × Json)

def member? (key : String) (members : Members) : Option Json :=
  (members.find? fun entry => entry.1 == key).map Prod.snd

def isNull : Json → Bool
  | null => true
  | _ => false

def text? : Json → Option String
  | text value => some value
  | _ => none

/-- A number as a double: an integer goes to the nearest one. -/
def number? : Json → Option Float
  | integer value => some (Float.ofInt value)
  | float value => some value
  | _ => none

mutual
/-- The same data: integers differ from floating-point numbers, and objects
are equal when each key has equal members, whatever their order. -/
def same : Json → Json → Bool
  | null, null => true
  | boolean a, boolean b => a == b
  | integer a, integer b => a == b
  | float a, float b => a == b
  | text a, text b => a == b
  | array a, array b => sameItems a b
  | object a, object b => a.length == b.length && sameMembers a b
  | _, _ => false

def sameItems : List Json → List Json → Bool
  | [], [] => true
  | a :: as, b :: bs => same a b && sameItems as bs
  | _, _ => false

def sameMembers : Members → Members → Bool
  | [], _ => true
  | (key, value) :: rest, others =>
      (match member? key others with
        | some other => same value other
        | none => false) && sameMembers rest others
end

end Json

end LifecycleGraph
