import LifecycleGraph.Graph.Assignment

/-!
# Removing nodes and tags

A node goes after the references that it holds and those that others hold to
it.  A tag goes with all tags below it, and the nodes that carry one of them
lose it from their lists and values.
-/

set_option autoImplicit false

namespace LifecycleGraph

namespace Graph

def clearProperties (id : NodeId) (properties : List PropertyId) : Change Graph Unit :=
  Change.forEach properties fun property => setProperty id property .null

/-- What is left of a value without the references to a node. -/
def withoutReferences (id : NodeId) : Option Value → Value
  | some (.list items) => .list (items.filter fun item => item.node? ≠ some id)
  | _ => .null

/-- Takes the references to a node out of a property of another one. -/
def dropReferences (id : NodeId) (property : PropertyId) (referrer : NodeId) :
    Change Graph Unit := do
  let node ← Change.ask (·.nodeOrFault referrer)
  setProperty referrer property (withoutReferences id (node.value? property))

def discard (graph : Graph) (node : Node) : Graph :=
  { graph with
    nodes := graph.nodes.erase node.id.index
    tagMembers := node.tags.foldl (fun members tag => members.dropMember tag node.id)
      graph.tagMembers
    stateMembers := match node.state with
      | some state => graph.stateMembers.dropMember state node.id
      | none => graph.stateMembers
    typeMembers := graph.typeMembers.modify node.type.index fun members =>
      ⟨members.order.erase node.id, members.byName.erase node.name⟩ }

/-- Removes a node and the references from it and to it. -/
def removeNode (id : NodeId) : Change Graph Unit := do
  let node ← Change.ask (·.nodeOrFault id)
  clearProperties id node.properties.keys
  let node ← Change.ask (·.nodeOrFault id)
  Change.forEach node.referrers.entries fun (property, referrers) =>
    Change.forEach referrers.members fun referrer => dropReferences id property referrer
  let node ← Change.ask (·.nodeOrFault id)
  modify (·.discard node)

/-- What is left of a value without some tags. -/
def withoutTags (gone : List TagId) : Value → Value
  | .list items => .list (items.filter fun item => !(item.tag?.any gone.contains))
  | .tag id => if gone.contains id then .null else .tag id
  | other => other

def stripTags (gone : List TagId) (node : Node) : Node :=
  { node with
    tags := node.tags.filter fun tag => !gone.contains tag
    properties := node.properties.filterMapValues fun value =>
      let left := withoutTags gone value
      if left.items.isEmpty then none else some left }

def carriers (graph : Graph) (tags : List TagId) : List NodeId :=
  (Ascending.ofList (tags.flatMap graph.nodesWithTag)).members

/-- Removes a tag with all below it; the answer tells the removed tags. -/
def removeTagTree (tag : TagId) : Change Graph (List TagId) := do
  let graph ← get
  let gone := graph.tags.walk tag
  let touched := graph.carriers gone
  modify fun graph => { graph with tagMembers := gone.foldl Table.erase graph.tagMembers }
  Change.forEach touched fun id => do
    let _ ← Change.ask (·.nodeOrFault id)
    modify (·.adjustNode id (stripTags gone))
  modify fun graph => { graph with tags := (graph.tags.remove tag).2 }
  pure gone

end Graph

end LifecycleGraph
