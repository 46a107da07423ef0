import LifecycleGraph.Proofs.Engine.Proposal
import LifecycleGraph.Proofs.Query.Stateless

/-!
# Nodes at rest

A node is at rest if it has no automatic transition that it can take.  State changes of
other nodes may open one for it, through a guard that looks at their states; where no
guard looks at a state, they do not.
-/

set_option autoImplicit false

namespace LifecycleGraph

open Graph

/-! ## State changes one after the other -/

theorem Standing.moveAll_apply_of_ne {moves : List Proposal} {id : NodeId}
    (others : ∀ proposal ∈ moves, proposal.node ≠ id) (standing : Standing) :
    standing.moveAll moves id = standing id := by
  induction moves generalizing standing with
  | nil => rfl
  | cons proposal rest inductionHypothesis =>
      have away : id ≠ proposal.node := (others proposal (List.mem_cons_self ..)).symm
      refine (inductionHypothesis (fun other inRest => others other (List.mem_cons_of_mem _ inRest))
        (standing.move proposal)).trans ?_
      rw [move, if_neg away]

namespace Repository

variable {repository : Repository} {id : NodeId}

/-! ## Rest -/

/-- A node has no automatic transition that it can take. -/
def AtRest (repository : Repository) (id : NodeId) : Prop :=
  ∀ proposal, ((repository.nextState id none).apply .empty).1 ≠ .ok (some proposal)

/-- After the first of some state changes the node was at rest, and the later ones are of
other nodes. -/
def CameToRest (repository : Repository) (changes : List Proposal) (graph : Graph)
    (id : NodeId) : Prop :=
  ∃ before since seen, changes = before ++ since ∧ repository.graph.Moved before seen ∧
    seen.Moved since graph ∧ (∀ proposal ∈ since, proposal.node ≠ id) ∧
    AtRest { repository with graph := seen } id

/-- The moves of other nodes do not open an automatic transition for a node at rest. -/
def Undisturbed (repository : Repository) : Prop :=
  ∀ changes graph id, repository.CameToRest changes graph id → AtRest { repository with graph } id

theorem atRest_iff : repository.AtRest id ↔ repository.automaticStep? id = none := by
  unfold AtRest automaticStep?
  cases ((repository.nextState id none).apply .empty).1 with
  | error fault => simp
  | ok proposal => cases proposal <;> simp

theorem CameToRest.onwards {changes further : List Proposal} {graph later : Graph}
    (rests : repository.CameToRest changes graph id) (moved : graph.Moved further later)
    (others : ∀ proposal ∈ further, proposal.node ≠ id) :
    repository.CameToRest (changes ++ further) later id := by
  obtain ⟨before, since, seen, rfl, reached, left, away, atRest⟩ := rests
  refine ⟨before, since ++ further, seen, List.append_assoc .., reached, left.trans moved,
    fun proposal member => ?_, atRest⟩
  rcases List.mem_append.mp member with earlier | later
  · exact away proposal earlier
  · exact others proposal later

/-! ## Guards that look at no state -/

/-- Whether a guard is bound to a condition that looks at no state. -/
def isBlind (repository : Repository) (guard : Query) : Bool :=
  guard.bound.any fun expression => !expression.readsStates repository.graph

/-- Whether the guards of all automatic transitions look at no state. -/
def hasBlindGuards (repository : Repository) : Bool :=
  repository.graph.states.members.all fun state =>
    state.transitions.all fun transition =>
      !transition.automatic || repository.isBlind transition.guard

theorem isBlind_of_hasBlindGuards (blind : repository.hasBlindGuards = true) {stateId : StateId}
    {state : State} (isState : repository.graph.state? stateId = some state)
    {transition : Transition} (member : transition ∈ state.transitions)
    (automatic : transition.automatic = true) : repository.isBlind transition.guard = true := by
  have isMember := (Roster.mem_members_iff repository.graph.states state).mpr
    ⟨stateId.index, isState⟩
  have here := List.all_eq_true.mp (List.all_eq_true.mp blind state isMember) transition member
  rwa [automatic, Bool.not_true, Bool.false_or] at here

theorem admitAlike_of_hasBlindGuards (blind : repository.hasBlindGuards = true)
    {seen later : Graph} {moves further : List Proposal}
    (reached : repository.graph.Moved moves seen) (left : seen.Moved further later)
    {stateId : StateId} {state : State} (isState : seen.state? stateId = some state)
    (id : NodeId) :
    AdmitAlike { repository with graph := seen } { repository with graph := later }
      state.transitions id := by
  intro transition member automatic
  rw [reached.state?_eq] at isState
  obtain ⟨expression, isBound, noState⟩ := (Option.any_eq_true _ _).mp
    (isBlind_of_hasBlindGuards blind isState member automatic)
  rw [Bool.not_eq_true'] at noState
  have read (answer : Except Fault NodeExecutor) :
      answer.map (·.accepts id) = (answer.map Executor.accepts).map fun accepts => accepts id := by
    cases answer <;> rfl
  rw [compile, compile, isBound, read, read]
  simp only
  rw [NodeExecutor.accepts_compile reached.restated expression noState,
    NodeExecutor.accepts_compile (reached.trans left).restated expression noState]

/-- Guards that look at no state do not notice that other nodes are moved. -/
theorem undisturbed_of_hasBlindGuards (blind : repository.hasBlindGuards = true)
    (sourced : Sourced repository.graph.states) : repository.Undisturbed := by
  rintro changes graph id ⟨before, since, seen, -, reached, left, others, atRest⟩ proposal
  have stands : graph.standing id = seen.standing id := by
    rw [left.standing, Standing.moveAll_apply_of_ne others]
  have sourcedThere : Sourced seen.states := by rwa [reached.states_eq]
  have agree : (({ repository with graph := seen }.nextState id none).apply .empty).1 =
      (({ repository with graph }.nextState id none).apply .empty).1 :=
    (nextState_agree id sourcedThere left.states_eq stands
      (fun _ _ isState => admitAlike_of_hasBlindGuards blind reached left isState id)
      genuine_empty).1
  rw [← agree]
  exact atRest proposal

end Repository

end LifecycleGraph
