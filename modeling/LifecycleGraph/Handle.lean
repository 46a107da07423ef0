import LifecycleGraph.Decimal.Layout

/-!
# Handles

Types, nodes, tags and states are referred to by handles, which are numbered
from zero in creation order.  A property is referred to by the type that
declares it and its place among that type's properties.  Handles are ordered,
so that collections of them have one order.
-/

set_option autoImplicit false

namespace LifecycleGraph

structure TypeId where
  index : Nat
deriving DecidableEq, Repr

structure NodeId where
  index : Nat
deriving DecidableEq, Repr

structure TagId where
  index : Nat
deriving DecidableEq, Repr

structure StateId where
  index : Nat
deriving DecidableEq, Repr

structure PropertyId where
  owner : TypeId
  slot : Nat
deriving DecidableEq, Repr

instance : LT TypeId := ⟨fun a b => a.index < b.index⟩
instance : LT NodeId := ⟨fun a b => a.index < b.index⟩
instance : LT TagId := ⟨fun a b => a.index < b.index⟩
instance : LT StateId := ⟨fun a b => a.index < b.index⟩

instance : LT PropertyId :=
  ⟨fun a b => a.owner.index < b.owner.index ∨ a.owner.index = b.owner.index ∧ a.slot < b.slot⟩

instance : DecidableLT TypeId := fun a b => inferInstanceAs (Decidable (a.index < b.index))
instance : DecidableLT NodeId := fun a b => inferInstanceAs (Decidable (a.index < b.index))
instance : DecidableLT TagId := fun a b => inferInstanceAs (Decidable (a.index < b.index))
instance : DecidableLT StateId := fun a b => inferInstanceAs (Decidable (a.index < b.index))

instance : DecidableLT PropertyId := fun a b =>
  inferInstanceAs
    (Decidable (a.owner.index < b.owner.index ∨ a.owner.index = b.owner.index ∧ a.slot < b.slot))

def numberText (number : Nat) : String := String.ofList (Decimal.digits number)

def handleText (index : Nat) : String := "#" ++ numberText index

def TypeId.text (id : TypeId) : String := handleText id.index
def NodeId.text (id : NodeId) : String := handleText id.index
def TagId.text (id : TagId) : String := handleText id.index
def StateId.text (id : StateId) : String := handleText id.index

def PropertyId.text (property : PropertyId) : String :=
  "PropertyRef \x7b owner: NodeTypeId(" ++ numberText property.owner.index ++ "), slot: " ++
    numberText property.slot ++ " \x7d"

end LifecycleGraph
