import LifecycleGraph.Engine.Service
import LifecycleGraph.Graph.Membership

/-!
# Committing state changes

State changes are committed in two phases.  In the first every service says
which nodes it accepts; a service that fails, is aborted or is late accepts
none.  The proposals for nodes that all services accept are applied, one after
the other, where the node is still in the state that it is to leave.  In the
second phase every service is told what was applied.
-/

set_option autoImplicit false

namespace LifecycleGraph

/-- A repository, and all else that services act on. -/
structure World (σ : Type) where
  repository : Repository
  outside : σ

namespace World

variable {σ α : Type}

def onRepository (change : Change Repository α) : Change (World σ) α :=
  change.within World.repository fun world repository => { world with repository }

def onGraph (change : Change Graph α) : Change (World σ) α :=
  onRepository (Repository.onGraph change)

end World

/-- Services by name, in the order in which they were registered. -/
abbrev Services (σ : Type) := List (String × Service (World σ))

namespace Commit

variable {σ : Type}

/-- The nodes of some proposals that every reply accepts. -/
def accepted (proposals : List Proposal) (replies : List (Reply (List NodeId))) :
    Ascending NodeId :=
  replies.foldl Reply.accepting (.ofList (proposals.map Proposal.node))

/-- Applies proposals; one whose node is not in the state to leave is passed
over.  The answer lists those that were applied. -/
def applyAll : List Proposal → Change Graph (List Proposal)
  | [] => pure []
  | proposal :: rest => do
      let graph ← get
      if (graph.node? proposal.node).map Node.state = some proposal.source then
        Graph.setState proposal.node (some proposal.target)
        let others ← applyAll rest
        pure (proposal :: others)
      else applyAll rest

/-- The proposals of a batch for nodes that were moved. -/
def appliedPart (applied batch : List Proposal) : List Proposal :=
  batch.filter fun proposal => applied.any fun done => done.node == proposal.node

/-- The first phase: the replies of the services to their batches. -/
def askAll (services : Services σ) (timeout : Nat) (batches : List (List Proposal)) :
    World σ → List (Reply (List NodeId)) × World σ :=
  Call.round timeout <| (services.zip batches).map fun (service, batch) =>
    service.2.prepare batch

/-- The second phase: the services are told what was applied of their batches. -/
def tellAll (services : Services σ) (timeout : Nat) (batches : List (List Proposal))
    (applied : List Proposal) : World σ → List (Reply Unit) × World σ :=
  Call.round timeout <| (services.zip batches).map fun (service, batch) =>
    service.2.commit (appliedPart applied batch)

/-- Commits proposals; the answer lists those that were applied. -/
def commit (services : Services σ) (timeout : Nat) (proposals : List Proposal) :
    Change (World σ) (List Proposal) := do
  if proposals.isEmpty then pure []
  else
    let world ← get
    let batches := services.map fun service => world.repository.labelFor service.1 proposals
    let (replies, world) := askAll services timeout batches world
    set world
    let nodes := accepted proposals replies
    if nodes.isEmpty then pure []
    else
      let applied ← World.onGraph <| applyAll <|
        proposals.filter fun proposal => nodes.contains proposal.node
      if applied.isEmpty then pure []
      else
        modify fun world => (tellAll services timeout batches applied world).2
        pure applied

end Commit

end LifecycleGraph
