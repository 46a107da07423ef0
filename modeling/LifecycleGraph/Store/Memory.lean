import LifecycleGraph.Collection.Table
import LifecycleGraph.Configuration.Content

/-!
# Saved nodes

The contents of nodes, saved by type and name.  A store in memory keeps the
last content that was saved for a node and counts how often it was saved to.
-/

set_option autoImplicit false

namespace LifecycleGraph

structure SavedNode where
  type : String
  name : String
  content : NodeContent

namespace SavedNode

def keyOf (type name : String) : String := type ++ ":" ++ name

def key (saved : SavedNode) : String := keyOf saved.type saved.name

def ofFields? : List (Option Json) → Option SavedNode
  | [some type, some name, some content] => do
      let type ← type.text?
      let name ← name.text?
      let content ← NodeContent.ofJson? content
      some ⟨type, name, content⟩
  | _ => none

def ofJson? (data : Json) : Option SavedNode :=
  (data.record? ["node_type", "name", "config"]).bind ofFields?

end SavedNode

structure MemoryStore where
  nodes : Table String SavedNode
  saves : Nat

namespace MemoryStore

def empty : MemoryStore := ⟨.empty, 0⟩

def size (store : MemoryStore) : Nat := store.nodes.size

def isEmpty (store : MemoryStore) : Bool := store.nodes.isEmpty

/-- Saves nodes at once; a later one takes the place of an earlier one. -/
def save (store : MemoryStore) (nodes : List SavedNode) : MemoryStore :=
  ⟨nodes.foldl (fun table saved => table.insert saved.key saved) store.nodes, store.saves + 1⟩

def load? (store : MemoryStore) (type name : String) : Option SavedNode :=
  store.nodes.find? (SavedNode.keyOf type name)

/-- Every saved node in the order of the keys. -/
def list (store : MemoryStore) : List SavedNode := store.nodes.values

/-- Deletes a node; the answer tells whether there was one. -/
def delete (store : MemoryStore) (type name : String) : Bool × MemoryStore :=
  let key := SavedNode.keyOf type name
  (store.nodes.contains key, { store with nodes := store.nodes.erase key })

end MemoryStore

/-- Where an engine saves to: a store in memory, or one that cannot be reached. -/
inductive Storage where
  | memory (store : MemoryStore)
  | unavailable (reason : String)

namespace Storage

def save : Storage → List SavedNode → Except String Storage
  | memory store, nodes => .ok (memory (store.save nodes))
  | unavailable reason, _ => .error reason

end Storage

end LifecycleGraph
