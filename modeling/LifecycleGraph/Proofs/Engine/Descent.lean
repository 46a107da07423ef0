import Mathlib.Algebra.BigOperators.Group.Finset.Basic
import Mathlib.Algebra.Order.BigOperators.Group.Finset
import LifecycleGraph.Proofs.Engine.Trace

/-!
# Propagations that come to an end

Suppose that states have ranks which each automatic transition lowers, and that services bring
no node to a state and report nodes of a finite set only.  A round that leaves something to look
at was told of one of these nodes for the first time, or moved a node to a state of lower rank.
So there are no more such rounds than there are nodes to report and ranks to go down.
-/

set_option autoImplicit false

namespace LifecycleGraph

open Graph

/-! ## Ranks of nodes -/

namespace Standing

variable {rank : StateId → Nat} {among : Finset NodeId} {standing other : Standing}

/-- The rank of the state that a node is in, if it is in one. -/
def height (standing : Standing) (rank : StateId → Nat) (id : NodeId) : Nat :=
  ((standing id).join.map rank).getD 0

/-- How far some nodes may go down together. -/
def potential (standing : Standing) (rank : StateId → Nat) (among : Finset NodeId) : Nat :=
  ∑ id ∈ among, standing.height rank id

/-- A proposal for one of the nodes that leads from a state to one of lower rank. -/
def Lowers (rank : StateId → Nat) (among : Finset NodeId) (proposal : Proposal) : Prop :=
  proposal.node ∈ among ∧ ∃ source, proposal.source = some source ∧
    rank proposal.target < rank source

theorem potential_move {proposal : Proposal} (lowers : Lowers rank among proposal)
    (inSource : standing proposal.node = some proposal.source) :
    (standing.move proposal).potential rank among < standing.potential rank among := by
  obtain ⟨isAmong, source, isSource, lower⟩ := lowers
  have here : (standing.move proposal).height rank proposal.node <
      standing.height rank proposal.node := by
    simpa [height, move, inSource, isSource] using lower
  refine Finset.sum_lt_sum (fun id _ => ?_) ⟨proposal.node, isAmong, here⟩
  by_cases same : id = proposal.node
  · exact Nat.le_of_lt (same ▸ here)
  · simp [height, move, same]

/-- Each proposal that is applied in turn lowers the potential. -/
theorem potential_inTurn {proposals : List Proposal}
    (lower : ∀ proposal ∈ proposals, Lowers rank among proposal) (standing : Standing) :
    (standing.moveAll (standing.inTurn proposals)).potential rank among +
      (standing.inTurn proposals).length ≤ standing.potential rank among := by
  induction proposals generalizing standing with
  | nil => exact Nat.le_refl _
  | cons proposal rest inductionHypothesis =>
      have onwards := inductionHypothesis
        fun other member => lower other (List.mem_cons_of_mem _ member)
      rw [inTurn]
      split
      · rename_i inSource
        have first := potential_move (lower proposal (List.mem_cons_self ..)) inSource
        have later := onwards (standing.move proposal)
        rw [List.length_cons]
        change ((standing.move proposal).moveAll _).potential rank among + _ ≤ _
        omega
      · exact onwards standing

end Standing

namespace Graph

variable {rank : StateId → Nat} {among : Finset NodeId} {graph old new : Graph}

/-- An automatic transition leads from one state to the other. -/
def Drifts (graph : Graph) (id target : StateId) : Prop :=
  ∃ state transition, graph.state? id = some state ∧ transition ∈ state.transitions ∧
    transition.automatic = true ∧ transition.target = target

/-- The rank goes down along every automatic transition. -/
def Descending (graph : Graph) (rank : StateId → Nat) : Prop :=
  ∀ id target, graph.Drifts id target → rank target < rank id

/-- Nodes of the set that are in a state were in it, and the rank goes down along automatic
transitions if it did. -/
structure Calm (rank : StateId → Nat) (among : Finset NodeId) (old new : Graph) : Prop where
  states : ∀ id ∈ among, ∀ state,
    new.standing id = some (some state) → old.standing id = some (some state)
  descending : old.Descending rank → new.Descending rank

theorem Calm.refl (rank : StateId → Nat) (among : Finset NodeId) (graph : Graph) :
    graph.Calm rank among graph :=
  ⟨fun _ _ _ => id, id⟩

theorem Calm.trans {first second third : Graph} (one : first.Calm rank among second)
    (two : second.Calm rank among third) : first.Calm rank among third where
  states id isAmong state inState :=
    one.states id isAmong state (two.states id isAmong state inState)
  descending := two.descending ∘ one.descending

theorem Calm.potential_le (calm : old.Calm rank among new) :
    new.standing.potential rank among ≤ old.standing.potential rank among := by
  refine Finset.sum_le_sum fun id isAmong => ?_
  cases stands : new.standing id with
  | none => simp [Standing.height, stands]
  | some state =>
      cases state with
      | none => simp [Standing.height, stands]
      | some state =>
          have stood := calm.states id isAmong state stands
          simp [Standing.height, stands, stood]

theorem Moved.descending {moves : List Proposal} (moved : old.Moved moves new)
    (descending : old.Descending rank) : new.Descending rank := by
  intro id target drifts
  rw [Drifts, moved.state?_eq] at drifts
  exact descending id target drifts

end Graph

/-! ## Services that move nothing -/

section

variable {σ : Type}

/-- What the service does is calm, and it reports only nodes of the second set. -/
structure Service.Bounded (rank : StateId → Nat) (among reported : Finset NodeId)
    (service : Service (World σ)) : Prop where
  calm : service.Respects fun old new =>
    old.repository.graph.Calm rank among new.repository.graph
  reports : ∀ nodes world later answer,
    ((service.modified nodes world).1.act later).1 = .answered answer →
      ∀ id ∈ answer, id ∈ reported

end

namespace Engine

variable {σ : Type} {rank : StateId → Nat} {among reported : Finset NodeId}

/-- The services are calm and report nodes of one set, the ranks go down, and nodes of the other,
larger set are to be looked at. -/
structure Sinking (rank : StateId → Nat) (among reported : Finset NodeId) (spread : Spread)
    (engine : Engine σ) : Prop where
  services : ∀ service ∈ engine.services, service.2.Bounded rank among reported
  descending : engine.graph.Descending rank
  larger : reported ⊆ among
  pending : ∀ id ∈ spread.pending.members, id ∈ among

/-- The nodes that may still be reported for the first time, and how far nodes may go down. -/
def left (rank : StateId → Nat) (among reported : Finset NodeId) (spread : Spread)
    (engine : Engine σ) : Nat :=
  (reported \ spread.seen.members.toFinset).card + engine.graph.standing.potential rank among

section Round

variable {run : Nat} {spread : Spread} {old new : Engine σ} {round : Round}

/-- Asking the services moves nothing, and they report nodes of the set. -/
theorem Sinking.consult (sinking : Sinking rank among reported spread old) :
    old.graph.Calm rank among (old.consult spread).2.repository.graph ∧
      ∀ answer, .answered answer ∈ (old.consult spread).1 → ∀ id ∈ answer, id ∈ reported := by
  have respects : ∀ call ∈ old.services.map fun service =>
      service.2.modified spread.pending.members, call.Respects
        (fun old new => old.repository.graph.Calm rank among new.repository.graph)
        fun reply => ∀ answer, reply = .answered answer → ∀ id ∈ answer, id ∈ reported := by
    intro call member
    obtain ⟨service, isService, rfl⟩ := List.mem_map.mp member
    have bounded := sinking.services service isService
    have modified := bounded.calm.modified spread.pending.members
    exact ⟨modified.taken, modified.acted, bounded.reports spread.pending.members⟩
  obtain ⟨calm, replies⟩ := Call.respects_round (fun _ => .refl ..) (fun _ _ _ => .trans)
    (fun _ same => by cases same) old.timeout respects old.world
  exact ⟨calm, fun answer isReply => replies _ isReply answer rfl⟩

/-- What is proposed lowers the potential. -/
theorem Sinking.lowers (sinking : Sinking rank among reported spread old) {proposal : Proposal}
    (member : proposal ∈ old.proposed spread) : Standing.Lowers rank among proposal := by
  obtain ⟨calm, reports⟩ := sinking.consult
  obtain ⟨target, isTarget, -, id, state, transition, isSource, isState, isTransition, wanted,
    arrives⟩ := Repository.of_mem_proposals member
  obtain ⟨node, isNode, same⟩ := List.mem_map.mp isTarget
  cases same
  refine ⟨?_, id, isSource, ?_⟩
  · rw [Ascending.union, Ascending.mem_insertAll, Reply.mem_reported_iff] at isNode
    rcases isNode with ⟨answer, isAnswer, isReported⟩ | isPending
    · exact sinking.larger (reports answer isAnswer _ isReported)
    · exact sinking.pending _ isPending
  · exact calm.descending sinking.descending id proposal.target
      ⟨state, transition, isState, isTransition, wanted, arrives⟩

/-- A round lowers the potential by its moves, and leaves nodes of the sets to look at. -/
theorem Takes.sinks (taken : Takes run spread old round new)
    (sinking : Sinking rank among reported spread old) :
    Sinking rank among reported (spread.after round) new ∧
      new.graph.standing.potential rank among + round.applied.length ≤
        old.graph.standing.potential rank among ∧
      ∀ id, round.Reports id → id ∈ reported := by
  obtain ⟨consulted, reports⟩ := sinking.consult
  obtain ⟨replies, between, moved, asked, chosen, moves, told⟩ :=
    Commit.steps_of_commit_ok (fun _ => .refl ..) (fun _ _ _ => .trans)
      (fun service isService => (sinking.services service isService).calm) taken.committed
  have before : old.graph.Calm rank among between.repository.graph := consulted.trans asked
  have lower (proposal : Proposal)
      (member : proposal ∈ Commit.candidates (old.proposed spread) replies) :
      Standing.Lowers rank among proposal :=
    sinking.lowers (List.mem_of_mem_filter member)
  have reported (id : NodeId) (isReported : round.Reports id) : id ∈ reported := by
    obtain ⟨answer, isReply, isAnswer⟩ := isReported
    rw [taken.replies] at isReply
    exact reports answer isReply id isAnswer
  have descending : new.graph.Descending rank :=
    told.descending (moves.descending (before.descending sinking.descending))
  refine ⟨⟨?_, descending, sinking.larger, ?_⟩, ?_, reported⟩
  · rw [taken.recorded]
    exact sinking.services
  · intro id member
    rcases (spread.mem_next_iff round id).mp member with ⟨proposal, isApplied, rfl⟩ | ⟨isNew, -⟩
    · rw [chosen] at isApplied
      exact (lower proposal ((Standing.inTurn_sublist _ _).subset isApplied)).1
    · exact sinking.larger (reported id isNew)
  · have down := Standing.potential_inTurn lower between.repository.graph.standing
    rw [← chosen, ← moves.standing] at down
    have start : between.repository.graph.standing.potential rank among ≤
        old.graph.standing.potential rank among :=
      before.potential_le
    have finish : new.graph.standing.potential rank among ≤ moved.standing.potential rank among :=
      told.potential_le
    omega

/-- A round that leaves something to look at leaves less to do. -/
theorem Takes.left_lt (taken : Takes run spread old round new)
    (sinking : Sinking rank among reported spread old)
    (somebody : (spread.next round).isEmpty = false) :
    left rank among reported (spread.after round) new < left rank among reported spread old := by
  obtain ⟨-, lower, reports⟩ := taken.sinks sinking
  have seen (id : NodeId) : id ∈ (spread.after round).seen.members ↔
      round.Reports id ∨ id ∈ spread.seen.members := by
    simpa only [Round.reportedIn_singleton] using taken.accounts.seen id
  have fewer : reported \ (spread.after round).seen.members.toFinset ⊆
      reported \ spread.seen.members.toFinset := by
    intro id
    simp only [Finset.mem_sdiff, List.mem_toFinset, seen]
    tauto
  have atMost := Finset.card_le_card fewer
  obtain ⟨id, isNext⟩ := List.exists_mem_of_ne_nil _ (List.isEmpty_eq_false_iff.mp somebody)
  rw [left, left]
  rcases (spread.mem_next_iff round id).mp isNext with ⟨proposal, isApplied, -⟩ | ⟨isNew, unseen⟩
  · have := List.length_pos_of_mem isApplied
    omega
  · have one : reported \ (spread.after round).seen.members.toFinset ⊂
        reported \ spread.seen.members.toFinset := by
      refine (Finset.ssubset_iff_of_subset fewer).mpr ⟨id, ?_, ?_⟩
      · simp [reports id isNew, unseen]
      · simp [seen, isNew]
    have := Finset.card_lt_card one
    omega

end Round

/-- Rounds that leave something to look at are at most as many as what there is to do. -/
theorem Runs.length_le {run : Nat} {spread last : Spread} {old new : Engine σ}
    {rounds : List Round} (runs : Runs run spread old rounds last new)
    (sinking : Sinking rank among reported spread old) :
    rounds.length ≤ left rank among reported spread old := by
  induction runs with
  | none => exact Nat.zero_le _
  | round taken somebody _ inductionHypothesis =>
      have later := inductionHypothesis (taken.sinks sinking).1
      have less := taken.left_lt sinking somebody
      rw [List.length_cons]
      omega

/-! ## Propagations -/

/-- Let services move none of the given nodes and of a finite set, and report nodes of the set
only, and let the rank of states go down along automatic transitions.  Where more rounds are
allowed than there are other nodes in the set and ranks of the nodes to go down, a propagation
does not use its rounds up. -/
theorem propagate_comes_to_end (engine : Engine σ) (nodes : List NodeId) (rank : StateId → Nat)
    (reported : Finset NodeId)
    (bounded : ∀ service ∈ engine.services,
      service.2.Bounded rank (nodes.toFinset ∪ reported) reported)
    (descending : engine.graph.Descending rank)
    (enough : (reported \ nodes.toFinset).card +
      engine.graph.standing.potential rank (nodes.toFinset ∪ reported) < engine.maxRounds) :
    (∀ rounds settled, ¬Ending engine.runs engine.maxRounds (.ofNodes nodes)
      { engine with runs := engine.runs + 1 } rounds (.ok none) settled) ∧
    ∀ outcome final, (propagate nodes).apply engine = (outcome, final) →
      final.world.repository.converters.Conclusive →
      ∀ phase limit, outcome ≠ .error (.nonTermination phase limit) := by
  have start : (Ascending.ofList nodes).members.toFinset = nodes.toFinset := by
    ext id
    simp [Ascending.mem_ofList]
  have sinking : Sinking rank (nodes.toFinset ∪ reported) reported (.ofNodes nodes)
      { engine with runs := engine.runs + 1 } := by
    refine ⟨bounded, descending, Finset.subset_union_right, fun id member => ?_⟩
    have isNode : id ∈ nodes := (Ascending.mem_ofList ..).mp member
    simp [isNode]
  have ends (rounds : List Round) (settled : Engine σ) :
      ¬Ending engine.runs engine.maxRounds (.ofNodes nodes)
        { engine with runs := engine.runs + 1 } rounds (.ok none) settled := by
    intro ending
    cases ending with
    | usedUp runs used =>
        have atMost := runs.length_le sinking
        rw [left, Spread.ofNodes, start, used] at atMost
        exact absurd enough (Nat.not_lt_of_le atMost)
  refine ⟨ends, fun outcome final run conclusive phase limit failed => ?_⟩
  rw [failed] at run
  obtain ⟨rounds, answer, ending, ⟨rfl, -, -⟩ | isConclusive⟩ := of_propagate_error run
  · exact ends rounds final ending
  · exact isConclusive conclusive phase limit rfl

/-- What is new is opened, and what is open is done, in the order of the states. -/
theorem descending_newTasks : newTasks.graph.Descending StateId.index := by
  have checked : (newTasks.graph.states.members.zipIdx.all fun (state, index) =>
      state.transitions.all fun transition =>
        !transition.automatic || transition.target.index < index) = true := by
    decide +kernel
  rintro id target ⟨state, transition, isState, isTransition, automatic, rfl⟩
  have isMember : (state, id.index) ∈ newTasks.graph.states.members.zipIdx :=
    List.mem_zipIdx_iff_getElem?.mpr isState
  have lower := List.all_eq_true.mp (List.all_eq_true.mp checked _ isMember) transition isTransition
  simpa [automatic] using lower

theorem bounded_reporter (rank : StateId → Nat) (among : Finset NodeId) (reported : List NodeId) :
    (reporter reported : Service (World σ)).Bounded rank among reported.toFinset where
  calm := respects_reporter (fun world => .refl rank among world.repository.graph) reported
  reports := by
    intro _ _ _ answer same id member
    cases same
    exact List.mem_toFinset.mpr member

/-- One task is to be reported, and both may go down by two states: six rounds are enough. -/
theorem propagate_comes_to_end_newTasks :
    (reporting newTasks 6).graph.Descending StateId.index ∧
      ¬∃ phase limit, ((propagate [⟨0⟩]).apply (reporting newTasks 6)).1 =
        .error (.nonTermination phase limit) := by
  have bounded (service : String × Service (World Unit))
      (member : service ∈ (reporting newTasks 6).services) :
      service.2.Bounded StateId.index (([⟨0⟩] : List NodeId).toFinset ∪ {⟨1⟩}) {⟨1⟩} := by
    rw [List.mem_singleton.mp member]
    exact bounded_reporter _ _ [⟨1⟩]
  have enough : (({⟨1⟩} : Finset NodeId) \ ([⟨0⟩] : List NodeId).toFinset).card +
      (reporting newTasks 6).graph.standing.potential StateId.index
        (([⟨0⟩] : List NodeId).toFinset ∪ {⟨1⟩}) < (reporting newTasks 6).maxRounds := by
    decide +kernel
  have descending : (reporting newTasks 6).graph.Descending StateId.index := descending_newTasks
  have comesToEnd := propagate_comes_to_end (reporting newTasks 6) [⟨0⟩] StateId.index {⟨1⟩}
    bounded descending
  have conclusive := conclusive_reporting 6 [⟨0⟩]
  refine ⟨descending, ?_⟩
  cases run : (propagate [⟨0⟩]).apply (reporting newTasks 6) with
  | mk outcome final =>
      rw [run] at conclusive
      rintro ⟨phase, limit, failed⟩
      exact (comesToEnd enough).2 outcome final run conclusive phase limit failed

end Engine

end LifecycleGraph
