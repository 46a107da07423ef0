import LifecycleGraph.Graph.Index

/-!
# The integrity of a graph

The forward values of nodes agree with the referrers of their targets, the tags
among values are in the flat lists, and the indices of tags and states list
the nodes that carry them and no others.
-/

set_option autoImplicit false

namespace LifecycleGraph

namespace Graph

/-- A reference without its counterpart at the target. -/
def referenceFault? (graph : Graph) (node : Node) (property : Property) (target : NodeId) :
    Option IntegrityFault :=
  if (graph.node? target).any fun found => found.referrers.hasMember property.id node.id then none
  else
    some (.noReverseEntry (graph.label node.id) property.name (graph.label target))

/-- A tag of a value that the flat list lacks. -/
def listingFault? (graph : Graph) (node : Node) (property : Property) (tag : TagId) :
    Option IntegrityFault :=
  if node.tags.contains tag then none
  else some (.tagNotListed (graph.label node.id) property.name (graph.tags.absoluteName tag))

def valueFault? (graph : Graph) (node : Node) (id : PropertyId) (value : Value) :
    Option IntegrityFault :=
  match graph.property? id with
  | none => some (.unknownProperty node.name id)
  | some property =>
      if property.isNode then value.nodes.findSome? (graph.referenceFault? node property)
      else if property.isTag then value.tags.findSome? (graph.listingFault? node property)
      else none

/-- A referrer that does not refer. -/
def referrerFault? (graph : Graph) (node : Node) (property : PropertyId) (referrer : NodeId) :
    Option IntegrityFault :=
  if ((graph.node? referrer).bind (·.value? property)).any (·.nodes.contains node.id) then none
  else some (.noReference (graph.label node.id) (graph.label referrer))

def nodeFault? (graph : Graph) (node : Node) : Option IntegrityFault :=
  (node.properties.entries.findSome? fun (id, value) => graph.valueFault? node id value) <|>
  (node.referrers.entries.findSome? fun (property, referrers) =>
    referrers.members.findSome? (graph.referrerFault? node property)) <|>
  (node.tags.findSome? fun tag =>
    if graph.tagMembers.hasMember tag node.id then none
    else some (.tagNotIndexed (graph.label node.id) (graph.tags.absoluteName tag))) <|>
  (match node.state with
    | some state =>
        if graph.stateMembers.hasMember state node.id then none
        else some (.stateNotIndexed (graph.label node.id))
    | none => none)

/-- A node listed under a tag that it lacks. -/
def tagIndexFault? (graph : Graph) (tag : TagId) (id : NodeId) : Option IntegrityFault :=
  if (graph.node? id).any (·.tags.contains tag) then none
  else some (.tagNotHeld (graph.label id) (graph.tags.absoluteName tag))

/-- A node listed under a state that it is not in. -/
def stateIndexFault? (graph : Graph) (state : StateId) (id : NodeId) : Option IntegrityFault :=
  if (graph.node? id).bind Node.state = some state then none
  else some (.stateNotHeld (graph.label id) (graph.stateName state))

def integrityFault? (graph : Graph) : Option IntegrityFault :=
  (graph.nodes.values.findSome? graph.nodeFault?) <|>
  (graph.tagMembers.entries.findSome? fun (tag, members) =>
    members.members.findSome? (graph.tagIndexFault? tag)) <|>
  (graph.stateMembers.entries.findSome? fun (state, members) =>
    members.members.findSome? (graph.stateIndexFault? state))

def checkIntegrity (graph : Graph) : Except Fault Unit :=
  match graph.integrityFault? with
  | none => .ok ()
  | some fault => .error (.integrity fault)

end Graph

end LifecycleGraph
