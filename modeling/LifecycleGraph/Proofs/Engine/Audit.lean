import LifecycleGraph.Proofs.Engine.Lasting

/-!
# The history as an audit trail

Where services move no node and leave the transitions of the states alone, only commits move
nodes, and each move is recorded: the records of a node lead from the state that it was in when
the engine was created, along declared transitions, to the state that it is in.  This is so after
any requests, also after those that failed or did not come to an end.
-/

set_option autoImplicit false

namespace LifecycleGraph

open Graph

namespace Graph

/-- The state that a node is in, if there is the node and it is in one. -/
def stateOf (graph : Graph) (id : NodeId) : Option StateId := (graph.node? id).bind Node.state

/-- From where to where the transitions of a state lead, if there is the state. -/
def endsOf (graph : Graph) (id : StateId) : Option (List (StateId × StateId)) :=
  (graph.state? id).map fun state => state.transitions.map ends

/-- Between two states a transition is declared. -/
def HasTransition (graph : Graph) (source : Option StateId) (target : StateId) : Prop :=
  ∃ id declared, source = some id ∧ graph.endsOf id = some declared ∧ (id, target) ∈ declared

/-- Nodes are in the states that they were in, and states have the transitions that they had. -/
structure Unmoved (old new : Graph) : Prop where
  nodes : ∀ id, new.stateOf id = old.stateOf id
  states : ∀ id, new.endsOf id = old.endsOf id

theorem Unmoved.refl (graph : Graph) : graph.Unmoved graph := ⟨fun _ => rfl, fun _ => rfl⟩

theorem Unmoved.trans {first second third : Graph} (one : first.Unmoved second)
    (two : second.Unmoved third) : first.Unmoved third :=
  ⟨fun id => (two.nodes id).trans (one.nodes id), fun id => (two.states id).trans (one.states id)⟩

variable {graph : Graph}

theorem stateOf_eq (graph : Graph) (id : NodeId) : graph.stateOf id = (graph.standing id).join := by
  rw [stateOf, standing]
  cases graph.node? id <;> rfl

theorem endsOf_of_state? {id : StateId} {state : State} (found : graph.state? id = some state) :
    graph.endsOf id = some (state.transitions.map ends) := by
  rw [endsOf, found, Option.map_some]

/-- The transitions of a state leave from it and lead to states. -/
theorem of_mem_endsOf (routed : Routed graph.states) {id : StateId}
    {declared : List (StateId × StateId)} (found : graph.endsOf id = some declared)
    {source target : StateId} (member : (source, target) ∈ declared) :
    source = id ∧ (graph.endsOf target).isSome = true := by
  obtain ⟨state, isState, rfl⟩ := Option.map_eq_some_iff.mp found
  obtain ⟨transition, isTransition, same⟩ := List.mem_map.mp member
  cases same
  refine ⟨routed.sourced id.index state isState transition isTransition, ?_⟩
  rw [endsOf, Option.isSome_map, state?, Roster.isSome_at?_iff]
  exact routed.targeted id.index state isState transition isTransition

/-- Records lead from one state to another: each from where the one before led, along a declared
transition. -/
inductive Replays (graph : Graph) : Option StateId → List Record → Option StateId → Prop where
  | none (state : Option StateId) : Replays graph state [] state
  | step {record : Record} {rest : List Record} {final : Option StateId} :
      graph.HasTransition record.source record.target →
      Replays graph (some record.target) rest final →
      Replays graph record.source (record :: rest) final

theorem Replays.append {start middle final : Option StateId} {records more : List Record}
    (one : graph.Replays start records middle) (two : graph.Replays middle more final) :
    graph.Replays start (records ++ more) final := by
  induction one with
  | none state => exact two
  | step declared _ inductionHypothesis => exact .step declared (inductionHypothesis two)

end Graph

/-! ## Calls that move nothing -/

section

variable {σ α : Type}

/-- A call that moves no node and changes no transition, neither at once nor after its delay. -/
def Call.Unmoving (call : Call (World σ) α) : Prop :=
  ∀ world : World σ, world.repository.graph.Unmoved (call world).2.repository.graph ∧
    ∀ later : World σ, later.repository.graph.Unmoved ((call world).1.act later).2.repository.graph

/-- A service that does not change the states of nodes, nor what transitions there are. -/
structure Service.Unmoving (service : Service (World σ)) : Prop where
  modified : ∀ nodes, (service.modified nodes).Unmoving
  prepare : ∀ batch, (service.prepare batch).Unmoving
  commit : ∀ batch, (service.commit batch).Unmoving

theorem Call.Unmoving.respects {call : Call (World σ) α} (unmoving : call.Unmoving) :
    call.Respects (fun old new => old.repository.graph.Unmoved new.repository.graph)
      fun _ => True where
  taken world := (unmoving world).1
  acted world := (unmoving world).2
  replied _ _ := trivial

theorem Service.Unmoving.respects {service : Service (World σ)} (unmoving : service.Unmoving) :
    service.Respects fun old new => old.repository.graph.Unmoved new.repository.graph where
  modified nodes := (unmoving.modified nodes).respects
  prepare batch := (unmoving.prepare batch).respects
  commit batch := (unmoving.commit batch).respects

end

/-! ## Commits -/

namespace Commit

variable {σ : Type}

/-- Proposals that are applied in turn lead each node from where it stands to where it comes. -/
theorem replays_inTurn {graph : Graph} {proposals : List Proposal}
    (declared : ∀ proposal ∈ proposals, graph.HasTransition proposal.source proposal.target)
    (standing : Standing) (run : Nat) (id : NodeId) :
    graph.Replays (standing id).join
      (((standing.inTurn proposals).map (Proposal.record run)).filter (·.node = id))
      (standing.moveAll (standing.inTurn proposals) id).join := by
  induction proposals generalizing standing with
  | nil => exact .none _
  | cons proposal rest inductionHypothesis =>
      have onwards := inductionHypothesis
        fun other member => declared other (List.mem_cons_of_mem _ member)
      rw [Standing.inTurn]
      split
      · rename_i inSource
        have later := onwards (standing.move proposal)
        by_cases same : proposal.node = id
        · have isRecord : (proposal.record run).node = id := same
          rw [List.map_cons, List.filter_cons, if_pos (by simpa using isRecord)]
          rw [Standing.move, if_pos same.symm] at later
          rw [← same] at later ⊢
          rw [inSource]
          change graph.Replays (proposal.record run).source _ _
          exact .step (declared proposal (List.mem_cons_self ..)) later
        · have isRecord : (proposal.record run).node ≠ id := same
          rw [List.map_cons, List.filter_cons, if_neg (by simpa using isRecord)]
          rw [Standing.move, if_neg (Ne.symm same)] at later
          exact later
      · exact onwards standing

/-- A commit with services that move nothing records exactly how it moves each node. -/
theorem leads_commit_unmoving {services : Services σ}
    (unmoving : ∀ service ∈ services, service.2.Unmoving) (timeout run : Nat)
    {proposals : List Proposal} {world : World σ} {start : Graph}
    (declared : ∀ proposal ∈ proposals, start.HasTransition proposal.source proposal.target ∧
      (world.repository.graph.endsOf proposal.target).isSome = true) :
    (commit services timeout proposals).Leads world
      (fun applied changed =>
        (∀ id, changed.repository.graph.endsOf id = world.repository.graph.endsOf id) ∧
          ∀ id, start.Replays (world.repository.graph.stateOf id)
            ((applied.map (Proposal.record run)).filter (·.node = id))
            (changed.repository.graph.stateOf id))
      fun _ => False := by
  obtain ⟨replies, between, asked⟩ : ∃ replies between,
      firstPhase services timeout proposals world = (replies, between) := ⟨_, _, rfl⟩
  have respects := fun service isService => (unmoving service isService).respects
  have waited : world.repository.graph.Unmoved between.repository.graph := by
    have unmoved := respects_firstPhase (fun _ => .refl _) (fun _ _ _ => .trans) respects timeout
      proposals world
    rwa [asked] at unmoved
  have isProposal {proposal : Proposal} (isCandidate : proposal ∈ candidates proposals replies) :
      proposal ∈ proposals := List.mem_of_mem_filter isCandidate
  obtain ⟨moved, applying, moves⟩ := applyAll_apply between.repository.graph
    (candidates proposals replies) fun proposal isCandidate => by
      have target := (declared proposal (isProposal isCandidate)).2
      rwa [← waited.states, Graph.endsOf, Option.isSome_map] at target
  have told : moved.Unmoved (settled services timeout
      (batches services world.repository proposals) (between.repository.graph.standing.inTurn
        (candidates proposals replies)) moved between).repository.graph :=
    respects_settled (fun _ => .refl _) (fun _ _ _ => .trans) respects timeout _ moves
  rw [Change.Leads, commit_apply, asked,
    conclude_apply services timeout _ replies between applying moves.unmoved]
  refine ⟨fun id => ?_, fun id => ?_⟩
  · rw [told.states, Graph.endsOf, moves.state?_eq, ← Graph.endsOf, waited.states]
  · rw [told.nodes, ← waited.nodes, Graph.stateOf_eq, Graph.stateOf_eq, moves.standing]
    exact replays_inTurn (fun proposal isCandidate =>
      (declared proposal (isProposal isCandidate)).1) between.repository.graph.standing run id

end Commit

/-! ## Runs of an engine -/

namespace Engine

variable {σ : Type} {start : Graph} {engine : Engine σ}

/-- The records of a node, the oldest first. -/
def recordsOf (id : NodeId) (engine : Engine σ) : List Record :=
  engine.history.filter (·.node = id)

/-- The history leads each node from where it was at the start to where it is. -/
structure Audited (start : Graph) (engine : Engine σ) : Prop where
  unmoving : ∀ service ∈ engine.services, service.2.Unmoving
  states : ∀ id, engine.graph.endsOf id = start.endsOf id
  replays : ∀ id, start.Replays (start.stateOf id) (engine.recordsOf id) (engine.graph.stateOf id)

namespace Audited

theorem onwards (audited : Audited start engine) {world : World σ} {more : List Record}
    (states : ∀ id, world.repository.graph.endsOf id = engine.graph.endsOf id)
    (replays : ∀ id, start.Replays (engine.graph.stateOf id) (more.filter (·.node = id))
      (world.repository.graph.stateOf id)) (runs : Nat) :
    Audited start { engine with world, history := engine.history ++ more, runs } where
  unmoving := audited.unmoving
  states id := (states id).trans (audited.states id)
  replays id := by
    have whole := (audited.replays id).append (replays id)
    rw [recordsOf, ← List.filter_append] at whole
    exact whole

theorem unmoved (audited : Audited start engine) {world : World σ}
    (unmoved : engine.graph.Unmoved world.repository.graph) :
    Audited start { engine with world } where
  unmoving := audited.unmoving
  states id := (unmoved.states id).trans (audited.states id)
  replays id := (unmoved.nodes id).symm ▸ audited.replays id

/-- What is proposed leads along a transition that was declared at the start. -/
theorem declared (audited : Audited start engine) (routed : Routed start.states)
    {targets : List (NodeId × Option StateId)} {proposal : Proposal}
    (member : proposal ∈ (engine.world.repository.proposals targets .empty).1) :
    start.HasTransition proposal.source proposal.target ∧
      (engine.graph.endsOf proposal.target).isSome = true := by
  obtain ⟨-, -, -, id, state, transition, isSource, isState, isTransition, -, isTarget⟩ :=
    Repository.of_mem_proposals member
  have found : start.endsOf id = some (state.transitions.map ends) :=
    (audited.states id).symm.trans (endsOf_of_state? isState)
  have among : (transition.source, transition.target) ∈ state.transitions.map ends :=
    List.mem_map_of_mem (f := ends) isTransition
  obtain ⟨leaves, arrives⟩ := of_mem_endsOf routed found among
  rw [leaves, isTarget] at among
  rw [isTarget] at arrives
  exact ⟨⟨id, _, isSource, found, among⟩, by rwa [audited.states]⟩

end Audited

theorem keeps_transition (routed : Routed start.states) (run : Nat)
    (targets : List (NodeId × Option StateId)) :
    (transition run targets : Change (Engine σ) (List NodeId)).Keeps (Audited start) := by
  intro engine audited
  rw [transition]
  refine Change.leads_get_bind ?_
  simp only
  refine Change.leads_bind (fun applied changed => ∃ world, changed = { engine with world } ∧
      (∀ id, world.repository.graph.endsOf id = engine.graph.endsOf id) ∧
      ∀ id, start.Replays (engine.graph.stateOf id)
        ((applied.map (Proposal.record run)).filter (·.node = id))
        (world.repository.graph.stateOf id))
    (Change.leads_within ((Commit.leads_commit_unmoving audited.unmoving engine.timeout run
      fun proposal member => audited.declared routed member).imp ?_ fun _ => False.elim)) ?_
  · exact fun applied world outcome => ⟨world, rfl, outcome⟩
  · intro applied changed outcome
    obtain ⟨world, rfl, states, replays⟩ := outcome
    refine Change.leads_bind (fun _ => Audited start) (Change.leads_modify ?_)
      fun _ _ audited => Change.leads_pure audited
    exact audited.onwards states replays engine.runs

/-- What services and transitions do is recorded. -/
theorem lasting_audited (routed : Routed start.states) :
    Lasting (Audited start : Engine σ → Prop) where
  asked engine nodes audited := by
    refine audited.unmoved ?_
    have respects : ∀ call ∈ engine.services.map fun service => service.2.modified nodes,
        call.Respects (fun old new => old.repository.graph.Unmoved new.repository.graph)
          fun _ => True := by
      intro called member
      obtain ⟨service, isService, rfl⟩ := List.mem_map.mp member
      exact (audited.unmoving service isService).respects.modified nodes
    exact Call.step_round (fun _ => .refl _) (fun _ _ _ => .trans) engine.timeout respects
      engine.world
  moved run targets := keeps_transition routed run targets
  others _ _ _ audited := ⟨audited.unmoving, audited.states, audited.replays⟩

/-- What is asked of an engine: to bring nodes to states, or to propagate changes of nodes. -/
inductive Request where
  | changeStates (targets : List (NodeId × Option StateId))
  | propagate (nodes : List NodeId)

def Request.perform : Request → Change (Engine σ) (List NodeId)
  | changeStates targets => Engine.changeStates targets
  | propagate nodes => Engine.propagate nodes

/-- The engine after some requests, whether they are answered or fail. -/
def serve (requests : List Request) (engine : Engine σ) : Engine σ :=
  requests.foldl (fun engine request => (request.perform.apply engine).2) engine

theorem Audited.serve (routed : Routed start.states) (requests : List Request)
    (audited : Audited start engine) : Audited start (engine.serve requests) := by
  rw [Engine.serve]
  induction requests generalizing engine with
  | nil => exact audited
  | cons request rest inductionHypothesis =>
      refine inductionHypothesis (Change.Leads.state_apply ?_)
      cases request with
      | changeStates targets =>
          exact keeps_changeStates (lasting_audited routed) targets engine audited
      | propagate nodes => exact keeps_propagate (lasting_audited routed) nodes engine audited

/-- In an engine whose services change neither states nor transitions, the records of each node
lead from the state that it was in when the engine was created to the state that it is in. -/
theorem history_replays (reachable : Reachable engine.world.repository)
    (created : engine.history = []) (unmoving : ∀ service ∈ engine.services, service.2.Unmoving)
    (requests : List Request) (id : NodeId) :
    engine.graph.Replays (engine.graph.stateOf id) ((engine.serve requests).recordsOf id)
      ((engine.serve requests).graph.stateOf id) := by
  have routed : Routed engine.graph.states := (Reached.ordered reachable).routed
  have atStart : Audited engine.graph engine := by
    refine ⟨unmoving, fun _ => rfl, fun id => ?_⟩
    rw [recordsOf, created]
    exact .none _
  exact (atStart.serve routed requests).replays id

theorem unmoving_approver (delay : Nat) (likes : NodeId → Bool) :
    (Commit.approver delay likes : Service (World σ)).Unmoving where
  modified _ world := ⟨.refl world.repository.graph, fun later => .refl later.repository.graph⟩
  prepare _ world := ⟨.refl world.repository.graph, fun later => .refl later.repository.graph⟩
  commit _ world := ⟨.refl world.repository.graph, fun later => .refl later.repository.graph⟩

/-- An engine with a service that accepts everything. -/
def supervised (repository : Repository) : Engine Unit :=
  ⟨⟨repository, ()⟩, [("lenient", Commit.approver 2 fun _ => true)], 9, 9, none, [], 0⟩

theorem repository_supervised (repository : Repository) :
    (supervised repository).world.repository = repository := rfl

/-- The urgent task is opened and then done, as its two records tell. -/
theorem history_replays_newTasks :
    let engine := supervised newTasks
    let served := engine.serve [.changeStates [(⟨0⟩, none), (⟨1⟩, some ⟨0⟩)], .propagate [⟨0⟩]]
    served.recordsOf ⟨0⟩ = [⟨0, ⟨0⟩, some ⟨2⟩, ⟨1⟩⟩, ⟨1, ⟨0⟩, some ⟨1⟩, ⟨0⟩⟩] ∧
      engine.graph.Replays (some ⟨2⟩) (served.recordsOf ⟨0⟩) (some ⟨0⟩) ∧
      engine.graph.Replays (some ⟨2⟩) (served.recordsOf ⟨1⟩) (some ⟨2⟩) := by
  intro engine served
  have reachable : Reachable newTasks := reachable_run _
  rw [← repository_supervised newTasks] at reachable
  have replays (id : NodeId) : engine.graph.Replays (engine.graph.stateOf id)
      (served.recordsOf id) (served.graph.stateOf id) := by
    refine history_replays reachable rfl (fun service member => ?_) _ id
    rw [List.mem_singleton.mp member]
    exact unmoving_approver 2 _
  have states : engine.graph.stateOf ⟨0⟩ = some ⟨2⟩ ∧ engine.graph.stateOf ⟨1⟩ = some ⟨2⟩ ∧
      served.graph.stateOf ⟨0⟩ = some ⟨0⟩ ∧ served.graph.stateOf ⟨1⟩ = some ⟨2⟩ := by
    decide +kernel
  obtain ⟨fromNew, fromNewToo, toDone, stillNew⟩ := states
  have urgent := replays ⟨0⟩
  have other := replays ⟨1⟩
  rw [fromNew, toDone] at urgent
  rw [fromNewToo, stillNew] at other
  exact ⟨by decide +kernel, urgent, other⟩

end Engine

end LifecycleGraph
