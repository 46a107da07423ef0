import LifecycleGraph.Handle
import LifecycleGraph.Json.Printer

/-!
# Values

What a property holds, and what a query compares with: nothing, a text, a
number, an integer of sixty-four bits, a truth value, a tag, a node, or a list
of values.  Integers and numbers compare with each other by size; values of
other kinds are only ever equal.
-/

set_option autoImplicit false

namespace LifecycleGraph

inductive Value where
  | null
  | text (value : String)
  | number (value : Float)
  | integer (value : Int64)
  | boolean (value : Bool)
  | tag (id : TagId)
  | node (id : NodeId)
  | list (items : List Value)
deriving Inhabited

namespace Value

def isNull : Value → Bool
  | null => true
  | _ => false

def node? : Value → Option NodeId
  | node id => some id
  | _ => none

def tag? : Value → Option TagId
  | tag id => some id
  | _ => none

/-- The single values held: the members of a list, nothing for nothing, and
the value itself otherwise. -/
def items : Value → List Value
  | null => []
  | list members => members
  | single => [single]

def nodes (value : Value) : List NodeId := value.items.filterMap node?

def tags (value : Value) : List TagId := value.items.filterMap tag?

/-- A numeric value as a double. -/
def float? : Value → Option Float
  | number value => some value
  | integer value => some (Float.ofInt value.toInt)
  | _ => none

/-- The order of two doubles; none where one of them is no number. -/
def compareFloat? (a b : Float) : Option Ordering :=
  if a < b then some .lt
  else if a == b then some .eq
  else if b < a then some .gt
  else none

def compare? : Value → Value → Option Ordering
  | integer a, integer b => some (compare a b)
  | text a, text b => some (compare a b)
  | boolean a, boolean b => some (compare a b)
  | a, b =>
      match a.float?, b.float? with
      | some x, some y => compareFloat? x y
      | _, _ => none

mutual
/-- The same kind and the same content. -/
def same : Value → Value → Bool
  | null, null => true
  | text a, text b => a == b
  | number a, number b => a == b
  | integer a, integer b => a == b
  | boolean a, boolean b => a == b
  | tag a, tag b => a == b
  | node a, node b => a == b
  | list a, list b => sameItems a b
  | _, _ => false

def sameItems : List Value → List Value → Bool
  | [], [] => true
  | a :: as, b :: bs => same a b && sameItems as bs
  | _, _ => false
end

mutual
/-- Equality under which an integer equals the number of its size, member by
member in lists. -/
def looseEq : Value → Value → Bool
  | list a, list b => looseEqItems a b
  | a, b =>
      match a.compare? b with
      | some order => order == .eq
      | none => same a b

def looseEqItems : List Value → List Value → Bool
  | [], [] => true
  | a :: as, b :: bs => looseEq a b && looseEqItems as bs
  | _, _ => false
end

mutual
def display : Value → String
  | null => "null"
  | text value => value
  | number value => Decimal.floatText .message value
  | integer value => Decimal.integerText value.toInt
  | boolean value => Json.booleanText value
  | tag id => "tag" ++ id.text
  | node id => "node" ++ id.text
  | list members => "[" ++ displayItems members ++ "]"

def displayItems : List Value → String
  | [] => ""
  | [item] => display item
  | item :: next :: rest => display item ++ "," ++ displayItems (next :: rest)
end

end Value

end LifecycleGraph
