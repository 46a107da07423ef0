import LifecycleGraph.Graph.Basic

/-!
# Indices over nodes

An index lists nodes under a key.  A key under which no node is left has no
entry, so that equal indices are the same.
-/

set_option autoImplicit false

namespace LifecycleGraph

namespace Table

variable {κ : Type} [LT κ] [DecidableLT κ] [DecidableEq κ]

def addMember (table : Table κ (Ascending NodeId)) (key : κ) (id : NodeId) :
    Table κ (Ascending NodeId) :=
  table.insert key (((table.find? key).getD .empty).insert id)

def dropMember (table : Table κ (Ascending NodeId)) (key : κ) (id : NodeId) :
    Table κ (Ascending NodeId) :=
  match table.find? key with
  | some members =>
      let left := members.erase id
      if left.isEmpty then table.erase key else table.insert key left
  | none => table

def hasMember (table : Table κ (Ascending NodeId)) (key : κ) (id : NodeId) : Bool :=
  (table.find? key).any (·.contains id)

end Table

end LifecycleGraph
