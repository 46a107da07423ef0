import LifecycleGraph.Repository.Converter

/-!
# Repositories

A graph with the converters for its values and the services that are registered
for it.  A service is known here by its name, the schema of its part of the
configuration of nodes, and the states that it supports.
-/

set_option autoImplicit false

namespace LifecycleGraph

structure ServiceEntry where
  name : String
  schema : Json
  supportedStates : List String

namespace ServiceEntry

/-- A service that takes any object as configuration and supports being active. -/
def plain : ServiceEntry := ⟨"", .object [("type", .text "object")], ["active"]⟩

end ServiceEntry

instance : Stamped ServiceEntry Unit where
  stamp _ name _ entry := { entry with name }

structure Repository where
  graph : Graph
  converters : Converters
  services : Roster ServiceEntry Unit

namespace Repository

def empty : Repository := ⟨.empty, .builtIn, .empty ()⟩

def onGraph {α : Type} (change : Change Graph α) : Change Repository α :=
  change.within Repository.graph fun repository graph => { repository with graph }

def registerService (repository : Repository) (name : String) (entry : ServiceEntry) :
    Repository :=
  { repository with services := (repository.services.insert name entry).1 }

def registerConverter (repository : Repository) (name : String) (converter : Converter) :
    Repository :=
  { repository with converters := repository.converters.register name converter }

/-- The data type of a name: a primitive type, any tag, any node, any value, a
node type, a tag as a namespace, or a converter. -/
def resolveType (repository : Repository) (name : String) : Except Fault DataType :=
  match Primitive.ofName? name with
  | some primitive => .ok (.primitive primitive)
  | none =>
      if name = "tag" then .ok (.tag none)
      else if name = "node" then .ok (.node none)
      else if name = "any" then .ok .any
      else
        match repository.graph.typeId? name with
        | some type => .ok (.node (some type))
        | none =>
            match repository.graph.tags.lookup? name with
            | some ns => .ok (.tag (some ns))
            | none =>
                if repository.converters.contains name then .ok (.custom name)
                else .error (.schema (.unknownDataType name))

def decodeItems (repository : Repository) (converter : Converter) (type : DataType) :
    List Json → Except Fault (List Value)
  | [] => .ok []
  | item :: rest => do
      let item ← converter.decode item type repository.graph
      let rest ← repository.decodeItems converter type rest
      .ok (item :: rest)

def encodeItems (repository : Repository) (converter : Converter) (type : DataType) :
    List Value → Except Fault (List Json)
  | [] => .ok []
  | item :: rest => do
      let item ← converter.encode item type repository.graph
      let rest ← repository.encodeItems converter type rest
      .ok (item :: rest)

/-- The value of a property from its written form.  A list property takes single
data for a list of one. -/
def decodeValue (repository : Repository) (property : Property) (data : Json) :
    Except Fault Value := do
  let converter ← repository.converters.converterFor property.dataType
  if property.list then
    match data with
    | .null => .ok (.list [])
    | .array items => (repository.decodeItems converter property.dataType items).map .list
    | single =>
        (converter.decode single property.dataType repository.graph).map fun item => .list [item]
  else if data.isNull then .ok .null
  else converter.decode data property.dataType repository.graph

def encodeValue (repository : Repository) (property : Property) (value : Value) :
    Except Fault Json := do
  let converter ← repository.converters.converterFor property.dataType
  match value with
  | .null => .ok .null
  | .list items =>
      if property.list then
        (repository.encodeItems converter property.dataType items).map .array
      else converter.encode value property.dataType repository.graph
  | single => converter.encode single property.dataType repository.graph

def nodeSchema (repository : Repository) (type : TypeId) : Json :=
  let services : Table String Json :=
    .ofList (repository.services.members.map fun entry => (entry.name, entry.schema))
  nodeConfigurationSchema (repository.graph.visibleProperties type) services.entries

end Repository

end LifecycleGraph
