import LifecycleGraph.Collection.Named
import LifecycleGraph.Engine.Commit
import LifecycleGraph.Repository.Content
import LifecycleGraph.Store.Memory

/-!
# The engine

The engine runs the services of a repository in rounds, until a round reports
nothing new, and moves nodes along their states.  It keeps the history of all
state changes and saves nodes after a run.  A run that takes more rounds than
are allowed is given up.
-/

set_option autoImplicit false

namespace LifecycleGraph

structure Record where
  run : Nat
  node : NodeId
  source : Option StateId
  target : StateId
deriving DecidableEq, Repr

structure Engine (σ : Type) where
  world : World σ
  services : Services σ
  maxRounds : Nat
  /-- The milliseconds after which a service is late. -/
  timeout : Nat
  storage : Option Storage
  /-- Every committed state change, the oldest first. -/
  history : List Record
  runs : Nat

namespace Engine

variable {σ α : Type}

def graph (engine : Engine σ) : Graph := engine.world.repository.graph

def onWorld (change : Change (World σ) α) : Change (Engine σ) α :=
  change.within Engine.world fun engine world => { engine with world }

def onRepository (change : Change Repository α) : Change (Engine σ) α :=
  onWorld (World.onRepository change)

def onGraph (change : Change Graph α) : Change (Engine σ) α :=
  onWorld (World.onGraph change)

def addService (engine : Engine σ) (name : String) (entry : ServiceEntry)
    (service : Service (World σ)) : Engine σ :=
  { engine with
    world := { engine.world with
      repository := engine.world.repository.registerService name entry }
    services := putNamed name service engine.services }

/-! ## Starting and ending -/

/-- Starts the services in order, until one fails. -/
def initialiseAll : Services σ → Change (World σ) Unit
  | [] => pure ()
  | (name, service) :: rest => do
      let (answer, world) := service.initialise (← get)
      set world
      match answer with
      | .ok () => initialiseAll rest
      | .error reason => .stop (.service name reason)

def initialise : Change (Engine σ) Unit := do
  let engine ← get
  onWorld (initialiseAll engine.services)

/-- Closes every service; the answer is the first failure. -/
def closeAll : Services σ → World σ → Option Fault × World σ
  | [], world => (none, world)
  | (name, service) :: rest, world =>
      let (answer, world) := service.close world
      let (later, world) := closeAll rest world
      match answer with
      | .ok () => (later, world)
      | .error reason => (some (.service name reason), world)

def close : Change (Engine σ) Unit := do
  let engine ← get
  let (fault, world) := closeAll engine.services engine.world
  set { engine with world }
  match fault with
  | none => pure ()
  | some fault => .stop fault

/-! ## Updating -/

def callAll (services : Services σ) (timeout : Nat)
    (call : Service (World σ) → Call (World σ) (List NodeId)) (world : World σ) :
    Ascending NodeId × World σ :=
  let (replies, world) := Call.round timeout (services.map fun service => call service.2) world
  (Reply.reported replies, world)

/-- Rounds of updates, each over what the round before reported, until one
reports nothing; without an answer when the rounds are used up. -/
def updateRounds (services : Services σ) (timeout : Nat) :
    Nat → List NodeId → Ascending NodeId → World σ → Option (Ascending NodeId) × World σ
  | 0, _, _, world => (none, world)
  | rounds + 1, pending, reported, world =>
      let (changed, world) := callAll services timeout (·.update pending) world
      if changed.isEmpty then (some reported, world)
      else updateRounds services timeout rounds changed.members (reported.union changed) world

def startRun : Change (Engine σ) Nat := do
  let engine ← get
  set { engine with runs := engine.runs + 1 }
  pure engine.runs

/-- Runs the updates of all services over some nodes, and over what they report.
The answer lists every node that was reported. -/
def update (nodes : List NodeId) : Change (Engine σ) (List NodeId) := do
  let engine ← get
  let (reported, world) :=
    updateRounds engine.services engine.timeout engine.maxRounds nodes .empty engine.world
  set { engine with world }
  match reported with
  | some reported => pure reported.members
  | none => .stop (.nonTermination .update engine.maxRounds)

/-! ## Changing states -/

/-- Proposes the next states of some nodes and commits them within a run. -/
def transition (run : Nat) (targets : List (NodeId × Option StateId)) :
    Change (Engine σ) (List NodeId) := do
  let engine ← get
  let proposals := (engine.world.repository.proposals targets .empty).1
  let applied ← onWorld (Commit.commit engine.services engine.timeout proposals)
  modify fun engine =>
    { engine with
      history := engine.history ++
        applied.map fun proposal => ⟨run, proposal.node, proposal.source, proposal.target⟩ }
  pure (applied.map Proposal.node)

/-- Moves nodes along their states, each to its target or along the first
automatic transition.  The answer lists the nodes that were moved. -/
def changeStates (targets : List (NodeId × Option StateId)) :
    Change (Engine σ) (List NodeId) := do
  let run ← startRun
  transition run targets

/-! ## Propagating modifications -/

/-- What is left for the next rounds: the nodes to look at, those that were
reported before, and all that were touched. -/
structure Spread where
  pending : Ascending NodeId
  seen : Ascending NodeId
  touched : Ascending NodeId

/-- Rounds of modifications: what services report as affected is joined to the
nodes to look at, and their automatic transitions are taken.  The next round
looks at the nodes that are affected for the first time or that were moved.
Without an answer when the rounds are used up. -/
def modifiedRounds (run : Nat) : Nat → Spread → Change (Engine σ) (Option (Ascending NodeId))
  | 0, _ => pure none
  | rounds + 1, spread => do
      let engine ← get
      let (affected, world) :=
        callAll engine.services engine.timeout (·.modified spread.pending.members) engine.world
      set { engine with world }
      let targets := (spread.pending.union affected).members
      let moved ← transition run (targets.map fun id => (id, none))
      let next := (affected.difference spread.seen).insertAll moved
      if next.isEmpty then pure (some spread.touched)
      else
        modifiedRounds run rounds
          ⟨next, spread.seen.union affected, spread.touched.union next⟩

def savedNodes (repository : Repository) : List NodeId → Except Fault (List SavedNode)
  | [] => .ok []
  | id :: rest =>
      match repository.graph.node? id with
      | none => savedNodes repository rest
      | some node => do
          let content ← repository.dumpNode id
          let others ← savedNodes repository rest
          .ok (⟨repository.graph.typeName node.type, node.name, content⟩ :: others)

def save (nodes : List NodeId) : Change (Engine σ) Unit := do
  let engine ← get
  match engine.storage with
  | none => pure ()
  | some storage =>
      let saved ← Change.ask fun engine => savedNodes engine.world.repository nodes
      match storage.save saved with
      | .ok storage => set { engine with storage := some storage }
      | .error reason => .stop (.service "store" reason)

/-- Propagates a change of some nodes through services and automatic transitions,
and saves those nodes.  The answer lists every other node that was affected and
every node that was moved. -/
def propagate (nodes : List NodeId) : Change (Engine σ) (List NodeId) := do
  let run ← startRun
  let engine ← get
  let start := Ascending.ofList nodes
  match ← modifiedRounds run engine.maxRounds ⟨start, start, .empty⟩ with
  | none => .stop (.nonTermination .modified engine.maxRounds)
  | some touched =>
      save nodes
      pure touched.members

end Engine

end LifecycleGraph
