import LifecycleGraph.Json.Basic

/-!
# Records in configuration data

A record is written as an object of its fields, or as the list of its fields in
order, which may end early.  Fields that a record does not have are passed over
in an object, and are too many in a list.
-/

set_option autoImplicit false

namespace LifecycleGraph

namespace Json

/-- The fields of a record, in order; none for a field that is not there. -/
def record? (fields : List String) : Json → Option (List (Option Json))
  | object members => some (fields.map fun field => member? field members)
  | array items =>
      if items.length ≤ fields.length then
        some (items.map some ++ List.replicate (fields.length - items.length) none)
      else none
  | _ => none

def boolean? : Json → Option Bool
  | boolean value => some value
  | _ => none

def members? : Json → Option Members
  | object members => some members
  | _ => none

def texts? : Json → Option (List String)
  | array items => items.mapM text?
  | _ => none

/-- A field with a value of its own where it is not there. -/
def fieldOr {α : Type} (absent : α) (read : Json → Option α) : Option Json → Option α
  | none => some absent
  | some data => read data

def optionalField {α : Type} (read : Json → Option α) : Option Json → Option (Option α)
  | none => some none
  | some null => some none
  | some data => (read data).map some

def misfitReason : String := "invalid type: not the expected form"

end Json

end LifecycleGraph
