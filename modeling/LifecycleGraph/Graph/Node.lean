import LifecycleGraph.Collection.Ascending
import LifecycleGraph.Collection.Table
import LifecycleGraph.Value

/-!
# Nodes

A node has a name, a type for good, and a state at most.  It holds values for
properties and knows the nodes that refer to it.  Its flat list of tags has the
tags given to it and, once for each, the tags among its property values.
-/

set_option autoImplicit false

namespace LifecycleGraph

structure Node where
  name : String
  id : NodeId
  type : TypeId
  state : Option StateId
  description : String
  properties : Table PropertyId Value
  /-- The nodes that refer to this one, by the property that holds it. -/
  referrers : Table PropertyId (Ascending NodeId)
  tags : List TagId
  services : Table String Json

namespace Node

def ofName (id : NodeId) (type : TypeId) (name : String) : Node :=
  ⟨name, id, type, none, "", .empty, .empty, [], .empty⟩

def value? (node : Node) (property : PropertyId) : Option Value := node.properties.find? property

def referrersBy (node : Node) (property : PropertyId) : List NodeId :=
  ((node.referrers.find? property).map Ascending.members).getD []

end Node

end LifecycleGraph
