import LifecycleGraph.Graph.Membership

/-!
# Setting property values

A value is checked against the declaration of its property before it is held.
Nodes among the values of a property are told who refers to them, and tags
among them are in the flat list of the node; a new value only touches the
items in which it differs from the old one.
-/

set_option autoImplicit false

namespace LifecycleGraph

namespace Graph

/-- A single value as a property of a type holds it: an integer becomes a number
where numbers are held, and all else is held as it is if it fits. -/
def fit? (graph : Graph) : DataType → Value → Option Value
  | .primitive .text, .text value => some (.text value)
  | .primitive .integer, .integer value => some (.integer value)
  | .primitive .number, .number value => some (.number value)
  | .primitive .number, .integer value => some (.number (Float.ofInt value.toInt))
  | .primitive .boolean, .boolean value => some (.boolean value)
  | .tag none, .tag id => if graph.tags.contains id then some (.tag id) else none
  | .tag (some ns), .tag id => if graph.tags.isa id ns then some (.tag id) else none
  | .node none, .node id => if (graph.node? id).isSome then some (.node id) else none
  | .node (some type), .node id =>
      if (graph.node? id).any fun node => graph.isSubtype node.type type then some (.node id)
      else none
  | .custom _, value => some value
  | .any, value => some value
  | _, _ => none

def checkItem (graph : Graph) (property : Property) (item : Value) : Except Fault Value :=
  match graph.fit? property.dataType item with
  | some value => .ok value
  | none =>
      .error (.value (.misfit item property.name (graph.describeType property.dataType)))

def checkItems (graph : Graph) (property : Property) : List Value → Except Fault (List Value)
  | [] => .ok []
  | item :: rest => do
      let item ← graph.checkItem property item
      let rest ← graph.checkItems property rest
      .ok (item :: rest)

/-- The value that a property holds when it is given a value: a single value is
a list of one for a property that holds lists. -/
def validate (graph : Graph) (property : Property) (value : Value) : Except Fault Value :=
  match value with
  | .null => .ok .null
  | .list items =>
      if property.list then (graph.checkItems property items).map .list
      else if property.dataType = .any then graph.checkItem property value
      else .error (.value (.singleValued property.name))
  | single =>
      if property.list then (graph.checkItem property single).map fun item => .list [item]
      else graph.checkItem property single

def unlink (id : NodeId) (property : PropertyId) (graph : Graph) (target : NodeId) : Graph :=
  graph.adjustNode target fun node =>
    { node with referrers := node.referrers.dropMember property id }

def link (id : NodeId) (property : PropertyId) (graph : Graph) (target : NodeId) : Graph :=
  graph.adjustNode target fun node =>
    { node with referrers := node.referrers.addMember property id }

def relink (graph : Graph) (id : NodeId) (property : PropertyId) (old new : Value) : Graph :=
  let before := Ascending.ofList old.nodes
  let after := Ascending.ofList new.nodes
  let unlinked := (before.difference after).members.foldl (unlink id property) graph
  (after.difference before).members.foldl (link id property) unlinked

/-- Takes the tags that only the old value holds out of the flat list, and puts
those that only the new one holds there, each as often as it occurs. -/
def retag (id : NodeId) (old new : Value) : Change Graph Unit := do
  Change.forEach (old.tags.filter fun tag => !new.tags.contains tag) fun tag => do
    let _ ← removeTag id tag
  Change.forEach (new.tags.filter fun tag => !old.tags.contains tag) fun tag => pushTag id tag

def hold (property : PropertyId) (value : Value) (node : Node) : Node :=
  { node with
    properties :=
      if value.items.isEmpty then node.properties.erase property
      else node.properties.insert property value }

/-- The declaration of a property, if it is one of a node's own type. -/
def declaration (graph : Graph) (id : NodeId) (property : PropertyId) :
    Except Fault (Property × Node) := do
  let declared ← match graph.property? property with
    | some declared => .ok declared
    | none => .error (.notFound .property property.text)
  let node ← graph.nodeOrFault id
  if graph.isSubtype node.type declared.owner then .ok (declared, node)
  else .error (.value (.undeclaredProperty declared.name (graph.typeName node.type)))

/-- Gives a property of a node a value; null and the empty list take it away. -/
def setProperty (id : NodeId) (property : PropertyId) (value : Value) : Change Graph Unit := do
  let (declared, node) ← Change.ask (·.declaration id property)
  let value ← Change.ask (·.validate declared value)
  let old := (node.value? property).getD .null
  if declared.isNode then modify (·.relink id property old value)
  else if declared.isTag then retag id old value
  else pure ()
  modify (·.adjustNode id (hold property value))

/-- Gives the visible property of a name a value. -/
def setPropertyNamed (id : NodeId) (name : String) (value : Value) : Change Graph Unit := do
  let node ← Change.ask (·.nodeOrFault id)
  let property ← Change.ask fun graph =>
    match graph.findProperty? node.type name with
    | some property => .ok property.id
    | none => .error (.notFound .property name)
  setProperty id property value

end Graph

end LifecycleGraph
