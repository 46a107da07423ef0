import LifecycleGraph.Query.Evaluation

/-!
# Proposed state changes

The next state of a node is the target of the first of its state's transitions
that is automatic, or that leads where it is to go, and whose guard the node
satisfies.  Guards are compiled once and kept.
-/

set_option autoImplicit false

namespace LifecycleGraph

/-- A node that is to change its state, with the label that the target has for
the service that is asked. -/
structure Proposal where
  node : NodeId
  source : Option StateId
  target : StateId
  label : Option String
deriving DecidableEq, Repr

structure GuardCache where
  guards : List ((StateId × StateId) × NodeExecutor)

namespace GuardCache

def empty : GuardCache := ⟨[]⟩

def size (cache : GuardCache) : Nat := cache.guards.length

def find? (cache : GuardCache) (ends : StateId × StateId) : Option NodeExecutor :=
  (cache.guards.find? fun entry => entry.1 == ends).map Prod.snd

def add (cache : GuardCache) (ends : StateId × StateId) (guard : NodeExecutor) : GuardCache :=
  ⟨cache.guards ++ [(ends, guard)]⟩

end GuardCache

namespace Repository

/-- The compiled guard of a transition, kept from its first use on. -/
def guardOf (repository : Repository) (transition : Transition) : Change GuardCache NodeExecutor :=
  .ofFunction fun cache =>
    let ends := (transition.source, transition.target)
    match cache.find? ends with
    | some guard => (.ok guard, cache)
    | none =>
        match repository.compile transition.guard with
        | .ok guard => (.ok guard, cache.add ends guard)
        | .error fault => (.error fault, cache)

/-- A transition is asked for, or taken without being asked for. -/
def isWanted (target : Option StateId) (transition : Transition) : Bool :=
  match target with
  | some state => transition.target == state
  | none => transition.automatic

/-- The first wanted transition whose guard a node satisfies. -/
def firstAdmitted (repository : Repository) (id : NodeId) (target : Option StateId) :
    List Transition → Change GuardCache (Option Transition)
  | [] => pure none
  | transition :: rest =>
      if isWanted target transition then do
        let guard ← repository.guardOf transition
        if guard.accepts id then pure (some transition)
        else repository.firstAdmitted id target rest
      else repository.firstAdmitted id target rest

def nextState (repository : Repository) (id : NodeId) (target : Option StateId) :
    Change GuardCache (Option Proposal) := do
  let node ← Change.ask fun _ => repository.graph.nodeOrFault id
  match node.state.bind repository.graph.state? with
  | none => pure none
  | some state => do
      let admitted ← repository.firstAdmitted id target state.transitions
      pure (admitted.map fun transition => ⟨id, node.state, transition.target, none⟩)

/-- The proposals for some nodes; a node whose guard cannot be compiled has none. -/
def proposals (repository : Repository) :
    List (NodeId × Option StateId) → GuardCache → List Proposal × GuardCache
  | [], cache => ([], cache)
  | (id, target) :: rest, cache =>
      let (answer, cache) := (repository.nextState id target).apply cache
      let (others, cache) := repository.proposals rest cache
      match answer with
      | .ok (some proposal) => (proposal :: others, cache)
      | _ => (others, cache)

def labelFor (repository : Repository) (service : String) (proposals : List Proposal) :
    List Proposal :=
  proposals.map fun proposal =>
    { proposal with
      label := (repository.graph.state? proposal.target).bind (·.serviceLabel? service) }

end Repository

end LifecycleGraph
