import LifecycleGraph.Configuration.Content
import LifecycleGraph.Graph.Removal
import LifecycleGraph.Repository.Declaration

/-!
# Configuring nodes and repositories

The content of a node is checked as a whole before the node is touched; then it
takes the place of what the node held.  What a node holds can be written as
such a content again.  The content of a repository is declared type by type,
state by state and node by node, so that each may refer to all others.
-/

set_option autoImplicit false

namespace LifecycleGraph

namespace Repository

/-! ## Nodes -/

/-- The names of types that a schema can ask for. -/
def shapeNames : List String :=
  ["object", "array", "string", "number", "integer", "boolean", "null"]

/-- Data is of a type that a schema names; names that are no types allow all. -/
def hasShape (expected : String) (data : Json) : Bool :=
  match expected, data with
  | "object", .object _ => true
  | "array", .array _ => true
  | "string", .text _ => true
  | "number", .integer _ => true
  | "number", .float _ => true
  | "integer", .integer _ => true
  | "boolean", .boolean _ => true
  | "null", .null => true
  | expected, _ => !shapeNames.contains expected

/-- The type that a schema asks for, if it names one. -/
def schemaType? : Json → Option String
  | .object members => (Json.member? "type" members).bind Json.text?
  | _ => none

def checkService (repository : Repository) (label name : String) (data : Json) :
    Except Fault Unit :=
  match repository.services.find? name with
  | none => .error (.schema (.unknownNodeService label name))
  | some entry =>
      match schemaType? entry.schema with
      | none => .ok ()
      | some expected =>
          if hasShape expected data then .ok ()
          else .error (.schema (.serviceShape label name expected data))

def checkServices (repository : Repository) (label : String) :
    Json.Members → Except Fault Unit
  | [] => .ok ()
  | (name, data) :: rest => do
      repository.checkService label name data
      repository.checkServices label rest

/-- The data that a property is configured with: the given data, or the default
where there is none. -/
def configuredData (content : NodeContent) (property : Property) : Json :=
  match Json.member? property.name content.properties with
  | some data => if data.isNull then property.default.getD .null else data
  | none => property.default.getD .null

def configuredValue (repository : Repository) (label : String) (content : NodeContent)
    (property : Property) : Except Fault Value :=
  let data := configuredData content property
  if data.isNull && property.required then
    .error (.schema (.missingProperty label property.name))
  else
    match (repository.decodeValue property data).bind (repository.graph.validate property) with
    | .ok value => .ok value
    | .error cause => .error (.value (.nodeProperty label property.name cause))

def configuredValues (repository : Repository) (label : String) (content : NodeContent) :
    List Property → Except Fault (List (PropertyId × Value))
  | [] => .ok []
  | property :: rest => do
      let value ← repository.configuredValue label content property
      let others ← repository.configuredValues label content rest
      .ok ((property.id, value) :: others)

/-- What is known of a node before its content is replaced. -/
structure Preparation where
  state : Option StateId
  values : List (PropertyId × Value)

def preparedState (repository : Repository) (label : String) :
    Option String → Except Fault (Option StateId)
  | none => .ok none
  | some name =>
      match repository.graph.stateId? name with
      | some id => .ok (some id)
      | none => .error (.schema (.unknownNodeState label name))

/-- Checks a content as a whole for a node. -/
def prepare (repository : Repository) (id : NodeId) (content : NodeContent) :
    Except Fault Preparation := do
  let node ← repository.graph.nodeOrFault id
  let label := repository.graph.label id
  let state ← repository.preparedState label content.state
  let visible := repository.graph.visibleProperties node.type
  match content.properties.find? fun entry => visible.all (·.name != entry.1) with
  | some (name, _) => .error (.schema (.unknownNodeProperty label name))
  | none =>
      repository.checkServices label content.services
      let values ← repository.configuredValues label content visible
      match content.tags.find? fun name => (Text.parts '.' name).any String.isEmpty with
      | some name => .error (.schema (.invalidNodeTag label name))
      | none => .ok ⟨state, values⟩

/-- Takes all values and tags of a node away. -/
def clearNode (id : NodeId) : Change Graph Unit := do
  let node ← Change.ask (·.nodeOrFault id)
  Graph.clearProperties id node.properties.keys
  let node ← Change.ask (·.nodeOrFault id)
  Change.forEach node.tags fun tag => do
    let _ ← Graph.removeTag id tag

def tagOrCreate (name : String) (parent : Option TagId) : Change Graph TagId :=
  (Forest.tagOrCreate name parent).within Graph.tags fun graph tags => { graph with tags }

def fill (id : NodeId) (content : NodeContent) (preparation : Preparation) :
    Change Graph Unit := do
  clearNode id
  Change.forEach content.tags fun name => do
    let tag ← tagOrCreate name none
    Graph.addTag id tag
  Change.forEach preparation.values fun (property, value) =>
    Graph.setProperty id property value
  Graph.setState id preparation.state
  modify (·.adjustNode id fun node =>
    { node with
      description := content.description
      services := .ofList content.services })

def configureNode (id : NodeId) (content : NodeContent) : Change Repository Unit := do
  let preparation ← Change.ask (·.prepare id content)
  onGraph (fill id content preparation)

/-- The written forms of the values that a node holds for some properties. -/
def dumpProperties (repository : Repository) (node : Node) :
    List Property → Except Fault Json.Members
  | [] => .ok []
  | property :: rest =>
      match node.value? property.id with
      | none => repository.dumpProperties node rest
      | some value => do
          let data ← repository.encodeValue property value
          let others ← repository.dumpProperties node rest
          .ok ((property.name, data) :: others)

/-- The tags of a flat list that are not accounted for by the second list, each
as often as it is there. -/
def ownTags : List TagId → List TagId → List TagId
  | [], _ => []
  | tag :: rest, accounted =>
      if accounted.contains tag then ownTags rest (accounted.erase tag)
      else tag :: ownTags rest accounted

def propertyTags (node : Node) (properties : List Property) : List TagId :=
  properties.flatMap fun property =>
    if property.isTag then ((node.value? property.id).map Value.tags).getD [] else []

/-- The content of a node, as it can be configured with it again.  Tags that come
with values are left out. -/
def dumpNode (repository : Repository) (id : NodeId) : Except Fault NodeContent := do
  let graph := repository.graph
  let node ← graph.nodeOrFault id
  let visible := graph.visibleProperties node.type
  let properties ← repository.dumpProperties node visible
  .ok {
    description := node.description
    state := node.state.map graph.stateName
    properties
    services := node.services.entries
    tags := (ownTags node.tags (propertyTags node visible)).map graph.tags.absoluteName }

/-! ## Repositories -/

def clear (repository : Repository) : Repository :=
  { repository with
    graph := { Graph.empty with
      types := repository.graph.types.clear
      states := repository.graph.states.clear } }

/-- The declaration of a type from its data; null declares a plain one. -/
def readType (name : String) (data : Json) : Except Fault TypeDeclaration :=
  match data with
  | .null => .ok .plain
  | other =>
      match TypeDeclaration.ofJson? other with
      | some declaration => .ok declaration
      | none => .error (.schema (.typeMisfit name Json.misfitReason))

def configureTypes (types : Json.Members) : Change Repository Unit := do
  Change.forEach types fun (name, _) => do
    let _ ← onGraph (declareType name)
  Change.forEach types fun (name, data) => do
    let declaration ← Change.ask fun _ => readType name data
    let _ ← defineType name declaration
  Change.ask checkBases

def configureStates (states : Json.Members) : Change Repository Unit := do
  Change.forEach states fun (name, _) => do
    let _ ← onGraph (declareState name)
  Change.forEach states fun (name, data) => do
    let declaration ← Change.ask fun _ => StateDeclaration.ofJson data
    let _ ← defineState name declaration

/-- The content of a node from its data; null is the blank one. -/
def readNode (type name : String) (data : Json) : Except Fault NodeContent :=
  match data with
  | .null => .ok .blank
  | other =>
      match NodeContent.ofJson? other with
      | some content => .ok content
      | none => .error (.schema (.nodeMisfit type name Json.misfitReason))

def addNodes (typeName : String) (type : TypeId) :
    Json.Members → Change Repository (List (NodeId × NodeContent))
  | [] => pure []
  | (name, data) :: rest => do
      let content ← Change.ask fun _ => readNode typeName name data
      let id ← onGraph (Graph.addNode type name)
      let others ← addNodes typeName type rest
      pure ((id, content) :: others)

def addAllNodes : Json.Members → Change Repository (List (NodeId × NodeContent))
  | [] => pure []
  | (typeName, data) :: rest => do
      let type ← Change.ask fun repository =>
        match repository.graph.typeId? typeName with
        | some type => .ok type
        | none => .error (.schema (.nodesOfUnknownType typeName))
      let added ← match data with
        | .null => pure []
        | .object members => addNodes typeName type members
        | other => .stop (.schema (.nodesShape typeName other))
      let others ← addAllNodes rest
      pure (added ++ others)

def configure (content : RepositoryContent) : Change Repository Unit := do
  modify clear
  let _ ← onGraph <| (Forest.configure none content.tags).within Graph.tags
    fun graph tags => { graph with tags }
  configureTypes content.types
  configureStates content.states
  let nodes ← addAllNodes content.nodes
  Change.forEach nodes fun (id, content) => configureNode id content
  let refreshed ← Change.ask refresh
  set refreshed

end Repository

end LifecycleGraph
