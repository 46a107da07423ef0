import LifecycleGraph.Graph.Index

/-!
# Adding nodes, tagging them, moving them between states

These changes keep the indices in step with the nodes: a node is listed under
its type, its name, its state and each tag of its flat list.
-/

set_option autoImplicit false

namespace LifecycleGraph

namespace Graph

def validNodeName (name : String) : Bool := !name.isEmpty && !name.toList.contains ':'

def enroll (graph : Graph) (type : TypeId) (name : String) : Graph :=
  let id : NodeId := ⟨graph.nodes.next⟩
  { graph with
    nodes := graph.nodes.push (.ofName id type name)
    typeMembers := graph.typeMembers.modify type.index fun members =>
      ⟨members.order.insert id, members.byName.insert name id⟩ }

/-- A new node without content.  Names are unique within a type. -/
def addNode (type : TypeId) (name : String) : Change Graph NodeId :=
  .ofFunction fun graph =>
    if !validNodeName name then (.error (.schema (.invalidNodeName name)), graph)
    else
      match graph.type? type with
      | none => (.error (.noType type), graph)
      | some declared =>
          if (graph.membersOfType? type).any (·.byName.contains name) then
            (.error (.schema (.nodeExists declared.name name)), graph)
          else (.ok ⟨graph.nodes.next⟩, graph.enroll type name)

/-- Puts a tag at the end of the flat list of a node, also when it is there. -/
def pushTag (id : NodeId) (tag : TagId) : Change Graph Unit :=
  .ofFunction fun graph =>
    if !graph.tags.contains tag then (.error (.noTag tag), graph)
    else
      match graph.node? id with
      | none => (.error (.noNode id), graph)
      | some _ =>
          (.ok (),
            { graph.adjustNode id fun node => { node with tags := node.tags ++ [tag] } with
              tagMembers := graph.tagMembers.addMember tag id })

/-- Gives a tag to a node; one that is in the flat list is not given again. -/
def addTag (id : NodeId) (tag : TagId) : Change Graph Unit := do
  let node ← Change.ask (·.nodeOrFault id)
  if node.tags.contains tag then pure () else pushTag id tag

/-- Takes the first occurrence of a tag out of a flat list that holds it. -/
def dropTag (graph : Graph) (node : Node) (tag : TagId) : Graph :=
  let left := node.tags.erase tag
  { graph.adjustNode node.id fun node => { node with tags := left } with
    tagMembers :=
      if left.contains tag then graph.tagMembers else graph.tagMembers.dropMember tag node.id }

/-- Takes one occurrence of a tag out of the flat list of a node; the answer
tells whether there was one. -/
def removeTag (id : NodeId) (tag : TagId) : Change Graph Bool :=
  .ofFunction fun graph =>
    match graph.node? id with
    | none => (.error (.noNode id), graph)
    | some node =>
        if node.tags.contains tag then (.ok true, graph.dropTag node tag)
        else (.ok false, graph)

def moveMember (members : Table StateId (Ascending NodeId)) (id : NodeId)
    (source target : Option StateId) : Table StateId (Ascending NodeId) :=
  let left := match source with
    | some source => members.dropMember source id
    | none => members
  match target with
  | some target => left.addMember target id
  | none => left

def setState (id : NodeId) (state : Option StateId) : Change Graph Unit :=
  .ofFunction fun graph =>
    match state.filter fun target => (graph.state? target).isNone with
    | some missing => (.error (.noState missing), graph)
    | none =>
        match graph.node? id with
        | none => (.error (.noNode id), graph)
        | some node =>
            if node.state = state then (.ok (), graph)
            else
              (.ok (),
                { graph.adjustNode id fun node => { node with state } with
                  stateMembers := moveMember graph.stateMembers id node.state state })

end Graph

end LifecycleGraph
