import LifecycleGraph.Graph.Node
import LifecycleGraph.Graph.Schema
import LifecycleGraph.Graph.State
import LifecycleGraph.Tag.Forest

/-!
# The graph

Node types, tags, states and nodes, with the indices over the nodes: by type
and name, by state and by tag.  This module reads the graph: the base chain of
a type, the properties that are visible on it, and nodes by their names.
-/

set_option autoImplicit false

namespace LifecycleGraph

structure TypeMembers where
  order : Ascending NodeId
  byName : Table String NodeId

structure Graph where
  types : Roster NodeType Unit
  tags : Forest
  states : Roster State Unit
  nodes : Arena Node
  typeMembers : List TypeMembers
  stateMembers : Table StateId (Ascending NodeId)
  /-- The nodes whose flat list holds exactly the tag. -/
  tagMembers : Table TagId (Ascending NodeId)

namespace Graph

def empty : Graph :=
  ⟨.empty (), .empty, .empty (), .empty, [], .empty, .empty⟩

/-! ## Types -/

def type? (graph : Graph) (id : TypeId) : Option NodeType := graph.types.at? id.index

def typeId? (graph : Graph) (name : String) : Option TypeId :=
  (graph.types.slotOf? name).map TypeId.mk

def typeName (graph : Graph) (id : TypeId) : String :=
  ((graph.type? id).map NodeType.name).getD "?"

def base? (graph : Graph) (id : TypeId) : Option TypeId := (graph.type? id).bind NodeType.base

/-- A type and its bases, up to the first one that was seen before. -/
def chainFrom (graph : Graph) : Nat → List TypeId → TypeId → List TypeId
  | 0, _, _ => []
  | fuel + 1, seen, id =>
      if seen.contains id then []
      else
        match graph.base? id with
        | some base => id :: graph.chainFrom fuel (id :: seen) base
        | none => [id]

/-- A type followed by its base chain; without repetition it is not longer than
the number of types. -/
def ancestors (graph : Graph) (id : TypeId) : List TypeId :=
  graph.chainFrom (graph.types.size + 1) [] id

/-- The base chain of a type comes back to one of its members. -/
def isCyclic (graph : Graph) (id : TypeId) : Bool :=
  ((graph.ancestors id).getLast?.bind graph.base?).isSome

def cyclicType? (graph : Graph) : Option NodeType :=
  graph.types.members.find? fun type => graph.isCyclic type.id

/-- The first type is the second one or derives from it. -/
def isSubtype (graph : Graph) (id base : TypeId) : Bool := (graph.ancestors id).contains base

/-- A type and all that derive from it, in declaration order. -/
def subtypes (graph : Graph) (base : TypeId) : List TypeId :=
  (graph.types.members.map NodeType.id).filter (graph.isSubtype · base)

/-- The property of a name on a type or, failing that, along its base chain. -/
def findProperty? (graph : Graph) (id : TypeId) (name : String) : Option Property :=
  (graph.ancestors id).findSome? fun ancestor =>
    (graph.type? ancestor).bind (NodeType.property? · name)

/-- The properties of a list without those whose names come before. -/
def withoutHidden : List String → List Property → List Property
  | _, [] => []
  | seen, property :: rest =>
      if seen.contains property.name then withoutHidden seen rest
      else property :: withoutHidden (property.name :: seen) rest

/-- The properties visible on a type, those of the type itself first.  A name
that is declared again hides the declaration of the base. -/
def visibleProperties (graph : Graph) (id : TypeId) : List Property :=
  withoutHidden [] <| (graph.ancestors id).flatMap fun ancestor =>
    ((graph.type? ancestor).map fun type => type.properties.members).getD []

def property? (graph : Graph) (id : PropertyId) : Option Property :=
  (graph.type? id.owner).bind fun type => type.properties.at? id.slot

/-! ## States -/

def state? (graph : Graph) (id : StateId) : Option State := graph.states.at? id.index

def stateId? (graph : Graph) (name : String) : Option StateId :=
  (graph.states.slotOf? name).map StateId.mk

def stateName (graph : Graph) (id : StateId) : String :=
  ((graph.state? id).map State.name).getD "?"

/-! ## Nodes -/

def node? (graph : Graph) (id : NodeId) : Option Node := graph.nodes.find? id.index

def nodeOrFault (graph : Graph) (id : NodeId) : Except Fault Node :=
  match graph.node? id with
  | some node => .ok node
  | none => .error (.noNode id)

def adjustNode (graph : Graph) (id : NodeId) (change : Node → Node) : Graph :=
  { graph with nodes := graph.nodes.modify id.index change }

/-- The type and the name of a node, or its handle when it is gone. -/
def label (graph : Graph) (id : NodeId) : String :=
  match graph.node? id with
  | some node => graph.typeName node.type ++ ":" ++ node.name
  | none => id.text

def propertyValue? (graph : Graph) (id : NodeId) (name : String) : Option Value := do
  let node ← graph.node? id
  let property ← graph.findProperty? node.type name
  node.value? property.id

def membersOfType? (graph : Graph) (id : TypeId) : Option TypeMembers :=
  graph.typeMembers[id.index]?

def nodesOfType (graph : Graph) (id : TypeId) : List NodeId :=
  ((graph.membersOfType? id).map fun members => members.order.members).getD []

/-- Every node: by the declaration of its type, then by creation. -/
def allNodes (graph : Graph) : List NodeId :=
  graph.typeMembers.flatMap fun members => members.order.members

def nodeCount (graph : Graph) : Nat :=
  total (fun members => members.order.size) graph.typeMembers

def nodesInState (graph : Graph) (id : StateId) : List NodeId :=
  ((graph.stateMembers.find? id).map Ascending.members).getD []

def nodesWithTag (graph : Graph) (id : TagId) : List NodeId :=
  ((graph.tagMembers.find? id).map Ascending.members).getD []

def namedAmong (graph : Graph) (name : String) (types : List TypeId) : List (TypeId × NodeId) :=
  types.filterMap fun type =>
    ((graph.membersOfType? type).bind fun members => members.byName.find? name).map (type, ·)

/-- The only node of a name among some types; two of them are one too many. -/
def uniqueAmong (graph : Graph) (name : String) (types : List TypeId) :
    Except Fault (Option NodeId) :=
  match graph.namedAmong name types with
  | [] => .ok none
  | [(_, id)] => .ok (some id)
  | (first, _) :: (second, _) :: _ =>
      .error (.ambiguous name (graph.typeName first) (graph.typeName second))

/-- The node of a name.  A type in front of the name, with a colon, says which
type and its subtypes to search; otherwise the given type says it, and without
one all types are searched. -/
def nodeNamed? (graph : Graph) (name : String) (type : Option TypeId) :
    Except Fault (Option NodeId) :=
  let search (name : String) : Option TypeId → Except Fault (Option NodeId)
    | some type => graph.uniqueAmong name (graph.subtypes type)
    | none => graph.uniqueAmong name (graph.types.members.map NodeType.id)
  match Text.cutOnce? ':' name with
  | some (typeName, rest) =>
      match graph.typeId? typeName with
      | some type => search rest (some type)
      | none => .error (.notFound .nodeType typeName)
  | none => search name type

def nodeNamed (graph : Graph) (name : String) (type : Option TypeId) : Except Fault NodeId :=
  match graph.nodeNamed? name type with
  | .ok (some id) => .ok id
  | .ok none => .error (.notFound .node name)
  | .error fault => .error fault

def describeType (graph : Graph) : DataType → String
  | .primitive type => type.name
  | .tag none => "tag"
  | .tag (some ns) => graph.tags.absoluteName ns
  | .node none => "node"
  | .node (some type) => ((graph.type? type).map NodeType.name).getD "node"
  | .custom name => name
  | .any => "any"

end Graph

end LifecycleGraph
