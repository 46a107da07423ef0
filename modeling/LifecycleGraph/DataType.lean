import LifecycleGraph.Handle
import LifecycleGraph.Json.Basic

/-!
# Data types

The declared type of a property: one of the primitive types, a tag below a
namespace, a node of a type, a type of a converter of its own, or any value.
-/

set_option autoImplicit false

namespace LifecycleGraph

inductive Primitive where
  | text
  | number
  | integer
  | boolean
deriving DecidableEq, Repr

namespace Primitive

def name : Primitive → String
  | text => "string"
  | number => "number"
  | integer => "integer"
  | boolean => "boolean"

/-- The primitive type of a name or of its short form. -/
def ofName? (name : String) : Option Primitive :=
  if name = "string" || name = "str" then some text
  else if name = "number" || name = "float" then some number
  else if name = "integer" || name = "int" then some integer
  else if name = "boolean" || name = "bool" then some boolean
  else none

end Primitive

inductive DataType where
  | primitive (type : Primitive)
  /-- A tag below the given namespace, or any tag. -/
  | tag (ns : Option TagId)
  /-- A node of the given type or of one that derives from it, or any node. -/
  | node (type : Option TypeId)
  | custom (name : String)
  | any
deriving DecidableEq, Repr

namespace DataType

def isNode : DataType → Bool
  | node _ => true
  | _ => false

def isTag : DataType → Bool
  | tag _ => true
  | _ => false

def schema : DataType → Json
  | primitive type => .object [("type", .text type.name)]
  | any => .object []
  | _ => .object [("type", .text "string")]

def converterName? : DataType → Option String
  | primitive type => some type.name
  | tag _ => some "tag"
  | node _ => some "node"
  | custom name => some name
  | any => none

end DataType

end LifecycleGraph
