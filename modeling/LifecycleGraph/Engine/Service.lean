import LifecycleGraph.Collection.Sorted
import LifecycleGraph.Engine.Proposal

/-!
# Services

A service is called with nodes or with proposals, and acts on a world that it
shares with the others.  What it does at once is done in the order in which the
services are called; what it does after a delay is done when the delay is over,
unless that is later than the caller waits.
-/

set_option autoImplicit false

namespace LifecycleGraph

inductive Reply (α : Type) where
  | answered (answer : α)
  | failed (reason : String)
  | aborted
  | late

/-- A call that was taken: its delay, and what is done after it. -/
structure Pending (ω α : Type) where
  delay : Nat
  act : ω → Reply α × ω

/-- A call, which is taken in a world that it may change at once. -/
abbrev Call (ω α : Type) := ω → Pending ω α × ω

structure Service (ω : Type) where
  initialise : ω → Except String Unit × ω
  close : ω → Except String Unit × ω
  update : List NodeId → Call ω (List NodeId)
  modified : List NodeId → Call ω (List NodeId)
  prepare : List Proposal → Call ω (List NodeId)
  commit : List Proposal → Call ω Unit

namespace Call

variable {ω α : Type}

def takeAll : List (Call ω α) → ω → List (Pending ω α) × ω
  | [], world => ([], world)
  | call :: rest, world =>
      let (pending, world) := call world
      let (others, world) := takeAll rest world
      (pending :: others, world)

/-- Lets taken calls act one after the other; one with a longer delay than is
waited for is late and does not act. -/
def actAll (timeout : Nat) : List (Pending ω α) → ω → List (Reply α) × ω
  | [], world => ([], world)
  | pending :: rest, world =>
      let (reply, world) :=
        if timeout < pending.delay then (.late, world) else pending.act world
      let (others, world) := actAll timeout rest world
      (reply :: others, world)

/-- One round of calls: all are taken, and they act in the order of their delays.
The replies are in the order in which they arrive. -/
def round (timeout : Nat) (calls : List (Call ω α)) (world : ω) : List (Reply α) × ω :=
  let (pending, world) := takeAll calls world
  actAll timeout (sortBy Pending.delay pending) world

end Call

def Reply.reported (replies : List (Reply (List NodeId))) : Ascending NodeId :=
  replies.foldl
    (fun nodes reply =>
      match reply with
      | .answered answer => nodes.insertAll answer
      | _ => nodes)
    .empty

/-- The nodes of a set that a reply accepts: those of its answer, and none where
there is no answer. -/
def Reply.accepting (accepted : Ascending NodeId) : Reply (List NodeId) → Ascending NodeId
  | .answered answer => ⟨accepted.members.filter answer.contains⟩
  | _ => .empty

end LifecycleGraph
