import LifecycleGraph.Proofs.Engine.Lasting
import LifecycleGraph.Proofs.Repository.Transition

/-!
# Guards that are kept do not matter

Where no two transitions of a state have the same ends, the two states that a guard is kept
under tell whose guard it is.  So what is proposed for a node does not depend on the guards that
were compiled for other nodes: it leads along the first wanted transition whose guard the node
satisfies, and a guard that cannot be compiled holds back the nodes that come to it and no other.
-/

set_option autoImplicit false

namespace LifecycleGraph

open Graph

namespace Repository

variable {repository : Repository} {cache : GuardCache} {state : State} {id : NodeId}
  {target : Option StateId} {before rest transitions : List Transition} {transition : Transition}

/-! ## The transition that is tried -/

/-- The first wanted transition whose guard a node satisfies, each guard compiled by itself. -/
def admitted (repository : Repository) (id : NodeId) (target : Option StateId) :
    List Transition → Except Fault (Option Transition)
  | [] => .ok none
  | transition :: rest =>
      if isWanted target transition then do
        if ← repository.satisfies transition.guard id then .ok (some transition)
        else repository.admitted id target rest
      else repository.admitted id target rest

/-- It comes to a transition: the transition is wanted, and the node satisfies the guard of none of
those before it that are wanted. -/
def Tries (repository : Repository) (id : NodeId) (target : Option StateId)
    (transitions : List Transition) (transition : Transition) : Prop :=
  ∃ before after, transitions = before ++ transition :: after ∧
    isWanted target transition = true ∧ ∀ earlier ∈ before, isWanted target earlier = true →
      repository.satisfies earlier.guard id = .ok false

theorem tries_cons_iff (first transition : Transition) (rest : List Transition) :
    repository.Tries id target (first :: rest) transition ↔
      isWanted target first = true ∧ first = transition ∨
        (isWanted target first = true → repository.satisfies first.guard id = .ok false) ∧
          repository.Tries id target rest transition := by
  constructor
  · rintro ⟨before, after, parted, wanted, rejected⟩
    cases before with
    | nil =>
        obtain ⟨rfl, rfl⟩ := List.cons.inj parted
        exact .inl ⟨wanted, rfl⟩
    | cons earlier before =>
        obtain ⟨rfl, rfl⟩ := List.cons.inj parted
        exact .inr ⟨rejected first (List.mem_cons_self ..), before, after, rfl, wanted,
          fun other member => rejected other (List.mem_cons_of_mem _ member)⟩
  · rintro (⟨wanted, rfl⟩ | ⟨passed, before, after, rfl, wanted, rejected⟩)
    · exact ⟨[], rest, rfl, wanted, fun _ member => by cases member⟩
    · refine ⟨first :: before, after, rfl, wanted, fun earlier member => ?_⟩
      rcases List.mem_cons.mp member with rfl | inBefore
      · exact passed
      · exact rejected earlier inBefore

/-- What is admitted among some transitions hangs on the first of them. -/
theorem admitted_cons (first : Transition) (rest : List Transition) :
    repository.admitted id target (first :: rest) =
      if isWanted target first then
        match repository.satisfies first.guard id with
        | .error fault => .error fault
        | .ok true => .ok (some first)
        | .ok false => repository.admitted id target rest
      else repository.admitted id target rest := by
  rw [admitted]
  rcases repository.satisfies first.guard id with fault | accepted
  · rfl
  · cases accepted <;> rfl

/-- A search that comes to an end before its list is decided by the transition that it comes
to. -/
theorem admitted_eq_iff {answer : Except Fault (Option Transition)} (decided : answer ≠ .ok none) :
    repository.admitted id target transitions = answer ↔
      ∃ transition, repository.Tries id target transitions transition ∧
        (repository.satisfies transition.guard id).map
          (fun accepted => if accepted then some transition else none) = answer := by
  induction transitions with
  | nil => simp [admitted, Tries, decided.symm]
  | cons first rest inductionHypothesis =>
      simp only [admitted_cons, tries_cons_iff]
      by_cases wanted : isWanted target first = true
      · rw [if_pos wanted]
        rcases verdict : repository.satisfies first.guard id with fault | accepted
        · grind [Except.map]
        · cases accepted <;> grind [Except.map]
      · rw [if_neg wanted, inductionHypothesis]
        simp [wanted]

theorem admitted_eq_ok_some_iff (transition : Transition) :
    repository.admitted id target transitions = .ok (some transition) ↔
      repository.Tries id target transitions transition ∧
        repository.satisfies transition.guard id = .ok true := by
  rw [admitted_eq_iff (by simp)]
  constructor
  · rintro ⟨other, tries, decides⟩
    obtain ⟨accepted, verdict, isOther⟩ := exists_of_map_eq_ok decides
    cases accepted with
    | false => cases isOther
    | true =>
        obtain rfl := Option.some.inj isOther
        exact ⟨tries, verdict⟩
  · rintro ⟨tries, verdict⟩
    exact ⟨transition, tries, by rw [verdict]; rfl⟩

theorem admitted_eq_error_iff (fault : Fault) :
    repository.admitted id target transitions = .error fault ↔
      ∃ transition, repository.Tries id target transitions transition ∧
        repository.satisfies transition.guard id = .error fault := by
  rw [admitted_eq_iff (by simp)]
  refine exists_congr fun transition => and_congr_right fun _ => ?_
  cases repository.satisfies transition.guard id <;> simp [Except.map]

/-- What comes of a node that is to go somewhere, with every guard compiled by itself. -/
def stepOf (repository : Repository) (id : NodeId) (target : Option StateId) :
    Except Fault (Option Proposal) := do
  let node ← repository.graph.nodeOrFault id
  match node.state.bind repository.graph.state? with
  | none => .ok none
  | some state =>
      (repository.admitted id target state.transitions).map
        (Option.map fun transition => ⟨id, node.state, transition.target, none⟩)

/-- It comes to a transition of the state that the node is in. -/
def Reaches (repository : Repository) (id : NodeId) (target : Option StateId) (source : StateId)
    (transition : Transition) : Prop :=
  ∃ node state, repository.graph.node? id = some node ∧ node.state = some source ∧
    repository.graph.state? source = some state ∧
      repository.Tries id target state.transitions transition

theorem stepOf_eq_ok_some_iff (proposal : Proposal) :
    repository.stepOf id target = .ok (some proposal) ↔
      ∃ source transition, repository.Reaches id target source transition ∧
        repository.satisfies transition.guard id = .ok true ∧
          proposal = ⟨id, some source, transition.target, none⟩ := by
  constructor
  · intro isStep
    obtain ⟨node, isNode, isStep⟩ := exists_of_bind_eq_ok isStep
    split at isStep
    · cases isStep
    · rename_i state inState
      obtain ⟨source, isSource, isState⟩ := Option.bind_eq_some_iff.mp inState
      obtain ⟨admitted, isAdmitted, same⟩ := exists_of_map_eq_ok isStep
      obtain ⟨transition, rfl, same⟩ := Option.map_eq_some_iff.mp same
      obtain ⟨tries, accepts⟩ := (admitted_eq_ok_some_iff transition).mp isAdmitted
      rw [isSource] at same
      exact ⟨source, transition,
        ⟨node, state, (nodeOrFault_eq_ok_iff id node).mp isNode, isSource, isState, tries⟩,
        accepts, (Option.some.inj same).symm⟩
  · rintro ⟨source, transition, ⟨node, state, isNode, isSource, isState, tries⟩, accepts, rfl⟩
    have isAdmitted := (admitted_eq_ok_some_iff transition).mpr ⟨tries, accepts⟩
    rw [stepOf, (nodeOrFault_eq_ok_iff id node).mpr isNode, ok_bind, isSource, Option.bind_some,
      isState]
    simp only [isAdmitted]
    rfl

theorem stepOf_eq_error_iff (fault : Fault) :
    repository.stepOf id target = .error fault ↔
      repository.graph.node? id = none ∧ fault = .noNode id ∨
        ∃ source transition, repository.Reaches id target source transition ∧
          repository.satisfies transition.guard id = .error fault := by
  cases isNode : repository.graph.node? id with
  | none =>
      have missing : repository.graph.nodeOrFault id = .error (.noNode id) := by
        rw [nodeOrFault, isNode]
      have nowhere (source : StateId) (transition : Transition) :
          ¬ repository.Reaches id target source transition := by
        rintro ⟨node, -, isThere, -⟩
        rw [isNode] at isThere
        cases isThere
      rw [stepOf, missing]
      simp only [nowhere, false_and, exists_false, or_false, true_and]
      exact ⟨fun same => (Except.error.inj same).symm, fun same => congrArg Except.error same.symm⟩
  | some node =>
      rw [stepOf, (nodeOrFault_eq_ok_iff id node).mpr isNode, ok_bind]
      simp only [reduceCtorEq, false_and, false_or]
      constructor
      · intro failed
        split at failed
        · cases failed
        · rename_i state inState
          obtain ⟨source, isSource, isState⟩ := Option.bind_eq_some_iff.mp inState
          have isAdmitted : repository.admitted id target state.transitions = .error fault := by
            cases admitted : repository.admitted id target state.transitions with
            | error other =>
                rw [admitted] at failed
                cases failed
                rfl
            | ok answer =>
                rw [admitted] at failed
                cases failed
          obtain ⟨transition, tries, fails⟩ := (admitted_eq_error_iff fault).mp isAdmitted
          exact ⟨source, transition, ⟨node, state, isNode, isSource, isState, tries⟩, fails⟩
      · rintro ⟨source, transition, ⟨there, state, isThere, isSource, isState, tries⟩, fails⟩
        obtain rfl := Option.some.inj (isNode.symm.trans isThere)
        have isAdmitted := (admitted_eq_error_iff fault).mpr ⟨transition, tries, fails⟩
        rw [isSource, Option.bind_some, isState]
        simp only [isAdmitted]
        rfl

/-! ## The guards that are kept -/

/-- Every guard that is kept is that of a transition with the ends that it is kept under. -/
def Faithful (repository : Repository) (cache : GuardCache) : Prop :=
  ∀ between guard, cache.find? between = some guard → ∃ state transition,
    repository.graph.state? between.1 = some state ∧ transition ∈ state.transitions ∧
      ends transition = between ∧ repository.compile transition.guard = .ok guard

theorem faithful_empty : repository.Faithful .empty := by
  intro between guard found
  cases found

theorem Faithful.add (faithful : repository.Faithful cache)
    (isState : repository.graph.state? transition.source = some state)
    (member : transition ∈ state.transitions) {guard : NodeExecutor}
    (compiled : repository.compile transition.guard = .ok guard) :
    repository.Faithful (cache.add (ends transition) guard) := by
  intro between other found
  rw [GuardCache.find?_add, Option.or_eq_some_iff] at found
  obtain kept | ⟨-, isNew⟩ := found
  · exact faithful between other kept
  · split at isNew
    · rename_i same
      cases isNew
      exact ⟨state, transition, same ▸ isState, member, same, compiled⟩
    · cases isNew

section Configured

variable (sourced : Sourced repository.graph.states) (forked : Forked repository.graph.states)

include sourced forked

/-- The guard of a transition is its own, whether it was kept or is compiled. -/
theorem guardOf_apply {source : StateId} (isState : repository.graph.state? source = some state)
    (member : transition ∈ state.transitions) (faithful : repository.Faithful cache) :
    ((repository.guardOf transition).apply cache).1 = repository.compile transition.guard ∧
      repository.Faithful ((repository.guardOf transition).apply cache).2 := by
  obtain rfl : transition.source = source := sourced source.index state isState transition member
  cases kept : cache.find? (transition.source, transition.target) with
  | some guard =>
      obtain ⟨found, other, isFound, isOther, sameEnds, compiled⟩ := faithful _ guard kept
      obtain rfl := Option.some.inj (isState.symm.trans isFound)
      obtain rfl : transition = other :=
        List.inj_on_of_nodup_map (forked _ state isState) member isOther sameEnds.symm
      have run : (repository.guardOf transition).apply cache = (.ok guard, cache) := by
        simp only [guardOf, Change.apply_ofFunction, kept]
      rw [run]
      exact ⟨compiled.symm, faithful⟩
  | none =>
      cases compiled : repository.compile transition.guard with
      | error fault =>
          have run : (repository.guardOf transition).apply cache = (.error fault, cache) := by
            simp only [guardOf, Change.apply_ofFunction, kept, compiled]
          rw [run]
          exact ⟨rfl, faithful⟩
      | ok guard =>
          have run : (repository.guardOf transition).apply cache =
              (.ok guard, cache.add (ends transition) guard) := by
            simp only [guardOf, Change.apply_ofFunction, kept, compiled, ends]
          rw [run]
          exact ⟨rfl, faithful.add isState member compiled⟩

theorem firstAdmitted_apply (id : NodeId) (target : Option StateId) {source : StateId}
    (isState : repository.graph.state? source = some state)
    (among : ∀ transition ∈ rest, transition ∈ state.transitions)
    (faithful : repository.Faithful cache) :
    ((repository.firstAdmitted id target rest).apply cache).1 = repository.admitted id target rest ∧
      repository.Faithful ((repository.firstAdmitted id target rest).apply cache).2 := by
  induction rest generalizing cache with
  | nil => exact ⟨rfl, faithful⟩
  | cons transition rest inductionHypothesis =>
      have later (other : Transition) (member : other ∈ rest) : other ∈ state.transitions :=
        among other (List.mem_cons_of_mem _ member)
      rw [firstAdmitted, admitted]
      split
      · obtain ⟨answer, faithful⟩ := guardOf_apply sourced forked isState
          (among transition (List.mem_cons_self ..)) faithful
        rw [Change.apply_bind, satisfies, ← answer]
        cases applied : (repository.guardOf transition).apply cache with
        | mk answer kept =>
            rw [applied] at faithful
            cases answer with
            | error fault => exact ⟨rfl, faithful⟩
            | ok guard =>
                simp only [Except.map, ok_bind]
                split
                · exact ⟨rfl, faithful⟩
                · exact inductionHypothesis later faithful
      · exact inductionHypothesis later faithful

/-- What comes of a node is the same whichever guards are kept. -/
theorem nextState_apply (id : NodeId) (target : Option StateId)
    (faithful : repository.Faithful cache) :
    ((repository.nextState id target).apply cache).1 = repository.stepOf id target ∧
      repository.Faithful ((repository.nextState id target).apply cache).2 := by
  rw [nextState, stepOf, Change.apply_bind, Change.apply_ask]
  rcases repository.graph.nodeOrFault id with fault | node
  · exact ⟨rfl, faithful⟩
  · simp only [ok_bind]
    cases inState : node.state.bind repository.graph.state? with
    | none => exact ⟨rfl, faithful⟩
    | some state =>
        simp only
        obtain ⟨source, -, isState⟩ := Option.bind_eq_some_iff.mp inState
        obtain ⟨answer, faithful⟩ := firstAdmitted_apply sourced forked id target isState
          (fun _ member => member) faithful
        rw [Change.apply_bind_pure, answer]
        exact ⟨rfl, faithful⟩

end Configured

/-- What is proposed for a node by itself; nothing where a guard that it comes to cannot be
compiled. -/
def soleProposal? (repository : Repository) (asked : NodeId × Option StateId) : Option Proposal :=
  match ((repository.nextState asked.1 asked.2).apply .empty).1 with
  | .ok proposal => proposal
  | .error _ => none

theorem proposals_eq_filterMap (sourced : Sourced repository.graph.states)
    (forked : Forked repository.graph.states) (targets : List (NodeId × Option StateId))
    (faithful : repository.Faithful cache) :
    (repository.proposals targets cache).1 = targets.filterMap repository.soleProposal? := by
  induction targets generalizing cache with
  | nil => rfl
  | cons asked rest inductionHypothesis =>
      obtain ⟨answer, stillFaithful⟩ := nextState_apply sourced forked asked.1 asked.2 faithful
      obtain ⟨alone, -⟩ := nextState_apply sourced forked asked.1 asked.2 faithful_empty
      rw [proposals, List.filterMap_cons, soleProposal?, alone, ← answer]
      cases run : (repository.nextState asked.1 asked.2).apply cache with
      | mk outcome kept =>
          rw [run] at stillFaithful
          have others := inductionHypothesis stillFaithful
          rcases outcome with fault | _ | proposal
          · exact others
          · exact others
          · exact congrArg (proposal :: ·) others

end Repository

namespace Engine

open Repository

variable {σ : Type}

/-- A transition commits what is proposed for each node by itself, in whatever order and beside
whichever others the nodes are asked for.  For a node the first wanted transition is proposed
whose guard it satisfies, and a guard that cannot be compiled holds back the nodes that come to
it. -/
theorem transition_uncached (engine : Engine σ)
    (configured : KeyedReachable engine.world.repository) (run : Nat)
    (targets : List (NodeId × Option StateId)) :
    let repository := engine.world.repository
    (repository.proposals targets .empty).1 = targets.filterMap repository.soleProposal? ∧
      (∀ others, others.Perm targets →
        (repository.proposals others .empty).1.Perm (repository.proposals targets .empty).1) ∧
      (transition run targets).apply engine =
        (match (Commit.commit engine.services engine.timeout
            (targets.filterMap repository.soleProposal?)).apply engine.world with
        | (.ok applied, world) =>
            (.ok (applied.map Proposal.node), { engine with
              world
              history := engine.history ++ applied.map (Proposal.record run) })
        | (.error fault, world) => (.error fault, { engine with world })) ∧
      (∀ id target proposal, repository.soleProposal? (id, target) = some proposal ↔
        ∃ source transition, repository.Reaches id target source transition ∧
          repository.satisfies transition.guard id = .ok true ∧
            proposal = ⟨id, some source, transition.target, none⟩) ∧
      ∀ id target fault, ((repository.nextState id target).apply .empty).1 = .error fault ↔
        repository.graph.node? id = none ∧ fault = .noNode id ∨
          ∃ source transition, repository.Reaches id target source transition ∧
            repository.satisfies transition.guard id = .error fault := by
  intro repository
  have sourced : Sourced repository.graph.states := (Reached.ordered configured).sourced
  have forked : Forked repository.graph.states := configured.forked
  have proposed (asked : List (NodeId × Option StateId)) :
      (repository.proposals asked .empty).1 = asked.filterMap repository.soleProposal? :=
    proposals_eq_filterMap sourced forked asked faithful_empty
  have alone (id : NodeId) (target : Option StateId) :
      ((repository.nextState id target).apply .empty).1 = repository.stepOf id target :=
    (nextState_apply sourced forked id target faithful_empty).1
  refine ⟨proposed targets, fun others reordered => ?_, ?_, fun id target proposal => ?_,
    fun id target fault => ?_⟩
  · rw [proposed, proposed]
    exact reordered.filterMap _
  · have outcome := transition_apply run targets engine
    rw [proposed] at outcome
    refine outcome.trans ?_
    rcases (Commit.commit engine.services engine.timeout
      (targets.filterMap repository.soleProposal?)).apply engine.world with ⟨fault | applied, world⟩
    · rfl
    · rfl
  · rw [← stepOf_eq_ok_some_iff, soleProposal?, alone]
    cases repository.stepOf id target <;> simp
  · rw [alone]
    exact stepOf_eq_error_iff fault

/-- Two tasks: one is held back by a guard that names nothing, and the other one, which is urgent,
can be done and can be held back when it is asked for. -/
def heldTasks : Repository :=
  Operation.run
    [.addNodeType "Task" .plain, .newTag none "urgent", .addState "done" .plain,
      .addState "held" { StateDeclaration.plain with transitions := [("done", .text "nothing")] },
      .addState "new" { StateDeclaration.plain with
        transitions := [("held", .boolean false), ("done", .text "urgent")] },
      .mutate (.addNode ⟨0⟩ "a"), .mutate (.addNode ⟨0⟩ "b"), .mutate (.addTag ⟨1⟩ ⟨0⟩),
      .mutate (.setState ⟨0⟩ (some ⟨1⟩)), .mutate (.setState ⟨1⟩ (some ⟨2⟩))]
    .empty

/-- The first task is held back, and the other one is moved for each time that it is asked for. -/
theorem transition_uncached_heldTasks :
    let asked := [(⟨0⟩, none), (⟨1⟩, none), (⟨1⟩, some ⟨1⟩)]
    (heldTasks.proposals asked .empty).1 =
        [⟨⟨1⟩, some ⟨2⟩, ⟨0⟩, none⟩, ⟨⟨1⟩, some ⟨2⟩, ⟨1⟩, none⟩] ∧
      ∃ fault source transition, heldTasks.Reaches ⟨0⟩ none source transition ∧
        heldTasks.satisfies transition.guard ⟨0⟩ = .error fault := by
  intro asked
  have configured : KeyedReachable heldTasks := by
    refine KeyedReachable.run Reached.empty ?_
    simp only [List.forall_mem_cons, Operation.Keyed]
    simp [StateDeclaration.plain]
  rw [← repository_unattended heldTasks] at configured
  obtain ⟨proposed, -, -, -, failed⟩ :=
    transition_uncached (unattended heldTasks) configured 0 asked
  rw [repository_unattended] at proposed failed
  refine ⟨proposed.trans (by decide +kernel), ?_⟩
  have stays : ((heldTasks.nextState ⟨0⟩ none).apply .empty).1.toOption = none := by
    decide +kernel
  cases answer : ((heldTasks.nextState ⟨0⟩ none).apply .empty).1 with
  | ok proposal =>
      rw [answer] at stays
      cases stays
  | error fault =>
      rcases (failed ⟨0⟩ none fault).mp answer with ⟨gone, -⟩ | held
      · have there : (heldTasks.graph.node? ⟨0⟩).isSome = true := by decide +kernel
        rw [gone] at there
        cases there
      · exact ⟨fault, held⟩

end Engine

end LifecycleGraph
