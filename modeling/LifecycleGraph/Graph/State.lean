import LifecycleGraph.Collection.Roster
import LifecycleGraph.Collection.Table
import LifecycleGraph.Query.Expression

/-!
# Lifecycle states

A state has transitions to other states, in the order in which they are tried.
A transition is guarded by a query; an automatic one is taken without being
asked for.  For each service a state may have a label of its own.
-/

set_option autoImplicit false

namespace LifecycleGraph

/-- Where a state stands in the life of a node; it restricts no transition. -/
inductive Lifecycle where
  | initial
  | final
deriving DecidableEq, Repr

structure Transition where
  source : StateId
  target : StateId
  automatic : Bool
  guard : Query

structure State where
  name : String
  id : StateId
  description : String
  lifecycle : Option Lifecycle
  /-- A condition for being in the state; it is kept bound and not enforced. -/
  condition : Query
  transitions : List Transition
  services : Table String String

namespace State

def declared : State := ⟨"", ⟨0⟩, "", none, .everything, [], .empty⟩

def serviceLabel? (state : State) (service : String) : Option String :=
  state.services.find? service

end State

instance : Stamped State Unit where
  stamp _ name slot state := { state with name, id := ⟨slot⟩ }

end LifecycleGraph
