import LifecycleGraph.Collection.Named
import LifecycleGraph.Collection.Roster
import LifecycleGraph.DataType

/-!
# Node types and their properties

A node type declares properties and may derive from one base type.  A property
knows the type that declares it and its place there; the two are its handle.
-/

set_option autoImplicit false

namespace LifecycleGraph

structure Property where
  name : String
  owner : TypeId
  slot : Nat
  dataType : DataType
  required : Bool
  /-- A sequence of values in place of a single one. -/
  list : Bool
  /-- The value of nodes that are configured without one, in written form. -/
  default : Option Json
  description : String

namespace Property

/-- A property that has not been entered into a type. -/
def ofType (dataType : DataType) : Property :=
  ⟨"", ⟨0⟩, 0, dataType, false, false, none, ""⟩

def id (property : Property) : PropertyId := ⟨property.owner, property.slot⟩

def isNode (property : Property) : Bool := property.dataType.isNode

def isTag (property : Property) : Bool := property.dataType.isTag

def schema (property : Property) : Json :=
  if property.list then
    .object [("type", .text "array"), ("items", property.dataType.schema)]
  else property.dataType.schema

end Property

instance : Stamped Property TypeId where
  stamp owner name slot property := { property with owner, name, slot }

structure NodeType where
  name : String
  id : TypeId
  base : Option TypeId
  properties : Roster Property TypeId
  description : String

namespace NodeType

def declared (id : TypeId) : NodeType := ⟨"", id, none, .empty id, ""⟩

def property? (type : NodeType) (name : String) : Option Property := type.properties.find? name

end NodeType

instance : Stamped NodeType Unit where
  stamp _ name slot type := { type with name, id := ⟨slot⟩ }

/-- The schema of the configuration of nodes with the given properties, with
the schemas of the services by name. -/
def nodeConfigurationSchema (properties : List Property) (services : List (String × Json)) :
    Json :=
  let declared := properties.foldl
    (fun members property => putNamed property.name property.schema members) []
  let required := (properties.filter Property.required).map fun property =>
    Json.text property.name
  .object [
    ("type", .text "object"),
    ("properties", .object [
      ("properties", .object [
        ("type", .text "object"),
        ("properties", .object declared),
        ("required", .array required)]),
      ("services", .object [("type", .text "object"), ("properties", .object services)]),
      ("state", .object [("type", .text "string")]),
      ("description", .object [("type", .text "string")]),
      ("tags", .object [
        ("type", .text "array"),
        ("items", .object [("type", .text "string")])])])]

end LifecycleGraph
