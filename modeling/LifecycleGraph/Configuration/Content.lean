import LifecycleGraph.Configuration.Record

/-!
# The content of nodes and repositories

What a node is configured with, which is also what is saved of it, and the
configuration of a whole repository.
-/

set_option autoImplicit false

namespace LifecycleGraph

structure NodeContent where
  description : String
  state : Option String
  properties : Json.Members
  services : Json.Members
  tags : List String

namespace NodeContent

def blank : NodeContent := ⟨"", none, [], [], []⟩

def ofFields? : List (Option Json) → Option NodeContent
  | [description, state, properties, services, tags] => do
      let description ← Json.fieldOr "" Json.text? description
      let state ← Json.optionalField Json.text? state
      let properties ← Json.fieldOr [] Json.members? properties
      let services ← Json.fieldOr [] Json.members? services
      let tags ← Json.fieldOr [] Json.texts? tags
      some ⟨description, state, properties, services, tags⟩
  | _ => none

def ofJson? (data : Json) : Option NodeContent :=
  (data.record? ["description", "state", "properties", "services", "tags"]).bind ofFields?

/-- The written form: an empty description and a missing state are left out. -/
def members (content : NodeContent) : Json.Members :=
  (if content.description.isEmpty then []
    else [("description", .text content.description)]) ++
  (match content.state with
    | some state => [("state", .text state)]
    | none => []) ++
  [("properties", .object content.properties), ("services", .object content.services),
    ("tags", .array (content.tags.map .text))]

/-- The same content, whatever the order of properties and services. -/
def same (content other : NodeContent) : Bool :=
  content.description == other.description && content.state == other.state &&
    (Json.object content.properties).same (.object other.properties) &&
    (Json.object content.services).same (.object other.services) &&
    content.tags == other.tags

end NodeContent

structure RepositoryContent where
  tags : Json
  types : Json.Members
  states : Json.Members
  nodes : Json.Members

namespace RepositoryContent

def ofFields? : List (Option Json) → Option RepositoryContent
  | [tags, types, states, nodes] => do
      let types ← Json.fieldOr [] Json.members? types
      let states ← Json.fieldOr [] Json.members? states
      let nodes ← Json.fieldOr [] Json.members? nodes
      some ⟨tags.getD .null, types, states, nodes⟩
  | _ => none

def ofJson? (data : Json) : Option RepositoryContent :=
  (data.record? ["tags", "types", "states", "nodes"]).bind ofFields?

end RepositoryContent

end LifecycleGraph
