import LifecycleGraph.Graph.Basic

/-!
# Labels

How tags, properties and data types are shown to a reader: by name, or by handle
when there is none of that handle.
-/

set_option autoImplicit false

namespace LifecycleGraph

namespace Graph

def tagLabel (graph : Graph) (id : TagId) : String :=
  if graph.tags.contains id then graph.tags.absoluteName id else id.text

def propertyLabel (graph : Graph) (id : PropertyId) : String :=
  match graph.property? id with
  | some property => graph.typeName property.owner ++ "." ++ property.name
  | none => id.owner.text ++ "." ++ numberText id.slot

def dataTypeLabel (graph : Graph) : DataType → String
  | .primitive type => type.name
  | .any => "any"
  | .tag none => "tag"
  | .tag (some ns) => "tag:" ++ graph.tags.absoluteName ns
  | .node none => "node"
  | .node (some type) => "node:" ++ graph.typeName type
  | .custom name => "custom:" ++ name

end Graph

end LifecycleGraph
