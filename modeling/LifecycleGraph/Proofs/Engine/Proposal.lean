import LifecycleGraph.Engine.Proposal
import LifecycleGraph.Proofs.Engine.Commit

/-!
# Proposals and the guards that are kept

A guard that is kept is found under the two states of its transition.  As transitions
leave from their states, it is the guard of the first automatic transition between the
two, whichever node it was compiled for.  So the automatic step of a node is the same
with the guards that were kept before and without them.
-/

set_option autoImplicit false

namespace LifecycleGraph

open Graph

namespace GuardCache

theorem find?_add (cache : GuardCache) (ends other : StateId × StateId) (guard : NodeExecutor) :
    (cache.add ends guard).find? other =
      (cache.find? other).or (if ends = other then some guard else none) := by
  simp only [find?, add, List.find?_append, List.find?_cons, List.find?_nil, Option.map_or]
  by_cases same : ends = other
  · simp [same]
  · simp [same, beq_eq_false_iff_ne.mpr same]

end GuardCache

namespace Repository

variable {repository : Repository} {cache : GuardCache} {state : State}
  {before rest : List Transition} {transition : Transition}

/-- The transition whose guard counts between two states. -/
def decisive? (transitions : List Transition) (target : StateId) : Option Transition :=
  transitions.find? fun transition => transition.automatic && transition.target == target

/-- Every guard that is kept is that of the transition that is decisive for it. -/
def Genuine (repository : Repository) (cache : GuardCache) : Prop :=
  ∀ ends guard, cache.find? ends = some guard → ∃ state transition,
    repository.graph.state? ends.1 = some state ∧
      decisive? state.transitions ends.2 = some transition ∧
      repository.compile transition.guard = .ok guard

/-- The guards of the automatic ones of some transitions are kept. -/
def Covers (cache : GuardCache) (transitions : List Transition) : Prop :=
  ∀ transition ∈ transitions, transition.automatic = true →
    (cache.find? (transition.source, transition.target)).isSome = true

theorem genuine_empty : repository.Genuine .empty := by
  intro ends guard found
  cases found

theorem Genuine.add (genuine : repository.Genuine cache)
    (isState : repository.graph.state? transition.source = some state)
    (isDecisive : decisive? state.transitions transition.target = some transition)
    {guard : NodeExecutor} (compiled : repository.compile transition.guard = .ok guard) :
    repository.Genuine (cache.add (transition.source, transition.target) guard) := by
  intro ends other found
  rw [GuardCache.find?_add, Option.or_eq_some_iff] at found
  obtain kept | ⟨-, isNew⟩ := found
  · exact genuine ends other kept
  · split at isNew
    · rename_i same
      cases isNew
      rw [← same]
      exact ⟨state, transition, isState, isDecisive, compiled⟩
    · cases isNew

theorem Covers.add (covers : Covers cache before) (transition : Transition)
    (guard : NodeExecutor) :
    Covers (cache.add (transition.source, transition.target) guard) (before ++ [transition]) := by
  intro other member isAutomatic
  rw [GuardCache.find?_add, Option.isSome_or, Bool.or_eq_true]
  rcases List.mem_append.mp member with isBefore | isLast
  · exact .inl (covers other isBefore isAutomatic)
  · rw [List.mem_singleton.mp isLast, if_pos rfl]
    exact .inr rfl

variable (sourced : Sourced repository.graph.states) {id : StateId}
  (isState : repository.graph.state? id = some state)

include sourced isState in
theorem decisive?_of_uncovered (whole : state.transitions = before ++ transition :: rest)
    (automatic : transition.automatic = true) (covers : Covers cache before)
    (notKept : cache.find? (transition.source, transition.target) = none) :
    decisive? state.transitions transition.target = some transition := by
  have leaves (other : Transition) (member : other ∈ state.transitions) : other.source = id :=
    sourced id.index state isState other member
  have none : before.find? (fun other =>
      other.automatic && other.target == transition.target) = none := by
    rw [List.find?_eq_none]
    intro other isBefore matching
    obtain ⟨isAutomatic, sameTarget⟩ := Bool.and_eq_true_iff.mp matching
    have kept := covers other isBefore isAutomatic
    rw [leaves other (by simp [whole, isBefore]), beq_iff_eq.mp sameTarget,
      ← leaves transition (by simp [whole]), notKept] at kept
    cases kept
  rw [decisive?, whole, List.find?_append, none, Option.none_or, List.find?_cons, automatic,
    beq_self_eq_true]
  rfl

include sourced isState in
/-- The guard of an automatic transition is that of the decisive one, kept or not. -/
theorem guardOf_spec (whole : state.transitions = before ++ transition :: rest)
    (automatic : transition.automatic = true) (genuine : repository.Genuine cache)
    (covers : Covers cache before) :
    ∃ decisive, decisive? state.transitions transition.target = some decisive ∧
      ((repository.guardOf transition).apply cache).1 = repository.compile decisive.guard ∧
      repository.Genuine ((repository.guardOf transition).apply cache).2 ∧
      ∀ guard, repository.compile decisive.guard = .ok guard →
        Covers ((repository.guardOf transition).apply cache).2 (before ++ [transition]) := by
  have source : transition.source = id :=
    sourced id.index state isState transition (by simp [whole])
  cases kept : cache.find? (transition.source, transition.target) with
  | some guard =>
      obtain ⟨found, decisive, isFound, isDecisive, compiled⟩ := genuine _ guard kept
      rw [source, isState] at isFound
      cases isFound
      have run : (repository.guardOf transition).apply cache = (.ok guard, cache) := by
        simp only [guardOf, Change.apply_ofFunction, kept]
      rw [run]
      refine ⟨decisive, isDecisive, compiled.symm, genuine, fun _ _ other member isAutomatic => ?_⟩
      rcases List.mem_append.mp member with isBefore | isLast
      · exact covers other isBefore isAutomatic
      · rw [List.mem_singleton.mp isLast, kept]
        rfl
  | none =>
      have isDecisive := decisive?_of_uncovered sourced isState whole automatic covers kept
      refine ⟨transition, isDecisive, ?_⟩
      cases compiled : repository.compile transition.guard with
      | error fault =>
          have run : (repository.guardOf transition).apply cache = (.error fault, cache) := by
            simp only [guardOf, Change.apply_ofFunction, kept, compiled]
          rw [run]
          exact ⟨rfl, genuine, fun _ isOk => by cases isOk⟩
      | ok guard =>
          have run : (repository.guardOf transition).apply cache =
              (.ok guard, cache.add (transition.source, transition.target) guard) := by
            simp only [guardOf, Change.apply_ofFunction, kept, compiled]
          rw [run]
          exact ⟨rfl, genuine.add (source ▸ isState) isDecisive compiled,
            fun _ _ => covers.add transition guard⟩

/-! ## What is proposed -/

/-- What is admitted is one of the transitions, and wanted. -/
theorem mem_of_firstAdmitted {node : NodeId} {target : Option StateId}
    {transitions : List Transition} {admitted : Transition}
    (answer : ((repository.firstAdmitted node target transitions).apply cache).1 =
      .ok (some admitted)) : admitted ∈ transitions ∧ isWanted target admitted = true := by
  induction transitions generalizing cache with
  | nil => cases answer
  | cons transition rest inductionHypothesis =>
      have later {kept : GuardCache}
          (answer : ((repository.firstAdmitted node target rest).apply kept).1 =
            .ok (some admitted)) :
          admitted ∈ transition :: rest ∧ isWanted target admitted = true := by
        obtain ⟨inRest, wanted⟩ := inductionHypothesis answer
        exact ⟨List.mem_cons_of_mem _ inRest, wanted⟩
      rw [firstAdmitted] at answer
      split at answer
      · rename_i wanted
        rw [Change.apply_bind] at answer
        split at answer
        · split at answer
          · cases answer
            exact ⟨List.mem_cons_self .., wanted⟩
          · exact later answer
        · cases answer
      · exact later answer

/-- The proposal leads along a wanted transition of the state that the node is in. -/
def Follows (repository : Repository) (target : Option StateId) (proposal : Proposal) : Prop :=
  repository.graph.standing proposal.node = some proposal.source ∧
    ∃ id state transition, proposal.source = some id ∧ repository.graph.state? id = some state ∧
      transition ∈ state.transitions ∧ isWanted target transition = true ∧
      transition.target = proposal.target

/-- What is proposed for a node leads along a transition of the state that it is in. -/
theorem of_nextState {node : NodeId} {target : Option StateId} {proposal : Proposal}
    (answer : ((repository.nextState node target).apply cache).1 = .ok (some proposal)) :
    proposal.node = node ∧ repository.Follows target proposal := by
  rw [nextState, Change.apply_bind, Change.apply_ask] at answer
  cases found : repository.graph.nodeOrFault node with
  | error fault =>
      rw [found] at answer
      cases answer
  | ok there =>
      have isNode := (nodeOrFault_eq_ok_iff node there).mp found
      rw [found] at answer
      simp only at answer
      cases inState : there.state.bind repository.graph.state? with
      | none =>
          rw [inState] at answer
          cases answer
      | some state =>
          rw [inState] at answer
          simp only [Change.apply_bind_pure] at answer
          obtain ⟨admitted, isAdmitted, same⟩ := exists_of_map_eq_ok answer
          cases admitted with
          | none => cases same
          | some admitted =>
              cases same
              obtain ⟨id, isId, isState⟩ := Option.bind_eq_some_iff.mp inState
              obtain ⟨member, wanted⟩ := mem_of_firstAdmitted isAdmitted
              refine ⟨rfl, ?_, id, state, admitted, isId, isState, member, wanted, rfl⟩
              rw [Graph.standing, isNode, Option.map_some]

theorem of_mem_proposals {targets : List (NodeId × Option StateId)} {proposal : Proposal}
    (member : proposal ∈ (repository.proposals targets cache).1) :
    ∃ target, (proposal.node, target) ∈ targets ∧ repository.Follows target proposal := by
  induction targets generalizing cache with
  | nil => cases member
  | cons first rest inductionHypothesis =>
      have later {kept : GuardCache} (member : proposal ∈ (repository.proposals rest kept).1) :
          ∃ target, (proposal.node, target) ∈ first :: rest ∧
            repository.Follows target proposal := by
        obtain ⟨target, inRest, follows⟩ := inductionHypothesis member
        exact ⟨target, List.mem_cons_of_mem _ inRest, follows⟩
      obtain ⟨node, target⟩ := first
      rw [proposals] at member
      simp only at member
      split at member
      · rename_i proposed answer
        rcases List.mem_cons.mp member with rfl | inRest
        · obtain ⟨rfl, follows⟩ := of_nextState answer
          exact ⟨target, List.mem_cons_self .., follows⟩
        · exact later inRest
      · exact later member

/-! ## The automatic step of a node -/

/-- The automatic transitions of some state admit a node in both repositories or in none. -/
def AdmitAlike (repository other : Repository) (transitions : List Transition)
    (node : NodeId) : Prop :=
  ∀ transition ∈ transitions, transition.automatic = true →
    (repository.compile transition.guard).map (·.accepts node) =
      (other.compile transition.guard).map (·.accepts node)

section Agreement

variable {other : Repository} (sourcedToo : Sourced other.graph.states)
  (isStateToo : other.graph.state? id = some state) {node : NodeId}
  (alike : AdmitAlike repository other state.transitions node)

include sourced isState sourcedToo isStateToo alike in
/-- Guards that admit alike lead to the same transition, whichever of them are kept. -/
theorem firstAdmitted_agree (whole : state.transitions = before ++ rest)
    {first second : GuardCache} (genuine : repository.Genuine first)
    (covers : Covers first before) (genuineToo : other.Genuine second)
    (coversToo : Covers second before) :
    ((repository.firstAdmitted node none rest).apply first).1 =
        ((other.firstAdmitted node none rest).apply second).1 ∧
      repository.Genuine ((repository.firstAdmitted node none rest).apply first).2 := by
  -- Whether a guard is kept shows what came before, so that this is carried along.
  induction rest generalizing before first second with
  | nil => exact ⟨rfl, genuine⟩
  | cons transition rest inductionHypothesis =>
      have onwards : state.transitions = (before ++ [transition]) ++ rest := by
        rw [whole, List.append_assoc, List.singleton_append]
      rw [firstAdmitted, firstAdmitted, isWanted]
      by_cases automatic : transition.automatic = true
      · rw [if_pos automatic, if_pos automatic, Change.apply_bind, Change.apply_bind]
        obtain ⟨decisive, isDecisive, answer, genuine, covers⟩ :=
          guardOf_spec sourced isState whole automatic genuine covers
        obtain ⟨again, isAgain, answerToo, genuineToo, coversToo⟩ :=
          guardOf_spec sourcedToo isStateToo whole automatic genuineToo coversToo
        rw [isDecisive] at isAgain
        cases isAgain
        have sameGuard : ((repository.guardOf transition).apply first).1.map (·.accepts node) =
            ((other.guardOf transition).apply second).1.map (·.accepts node) := by
          rw [answer, answerToo]
          rw [decisive?] at isDecisive
          have matching := List.find?_some isDecisive
          exact alike decisive (List.mem_of_find?_eq_some isDecisive)
            (Bool.and_eq_true_iff.mp matching).1
        cases run : (repository.guardOf transition).apply first with
        | mk guard kept =>
        cases runToo : (other.guardOf transition).apply second with
        | mk guardToo keptToo =>
        rw [run] at answer genuine covers sameGuard
        rw [runToo] at answerToo genuineToo coversToo sameGuard
        cases guard with
        | error fault =>
            cases guardToo with
            | error faultToo =>
                cases sameGuard
                exact ⟨rfl, genuine⟩
            | ok guardToo => cases sameGuard
        | ok guard =>
            cases guardToo with
            | error faultToo => cases sameGuard
            | ok guardToo =>
                have sameAnswer : guard.accepts node = guardToo.accepts node :=
                  Except.ok.inj sameGuard
                simp only [sameAnswer]
                split
                · exact ⟨rfl, genuine⟩
                · exact inductionHypothesis onwards genuine (covers guard answer.symm) genuineToo
                    (coversToo guardToo answerToo.symm)
      · have passed {cache : GuardCache} (covers : Covers cache before) :
            Covers cache (before ++ [transition]) := by
          intro other member isAutomatic
          rcases List.mem_append.mp member with isBefore | isLast
          · exact covers other isBefore isAutomatic
          · rw [List.mem_singleton.mp isLast] at isAutomatic
            exact absurd isAutomatic automatic
        rw [if_neg automatic, if_neg automatic]
        exact inductionHypothesis onwards genuine (passed covers) genuineToo (passed coversToo)

end Agreement

/-- A node in the same state, with guards that admit alike, has the same next state. -/
theorem nextState_agree {other : Repository} (node : NodeId)
    (sourced : Sourced repository.graph.states)
    (states : other.graph.states = repository.graph.states)
    (stands : other.graph.standing node = repository.graph.standing node)
    (alike : ∀ id state, repository.graph.state? id = some state →
      AdmitAlike repository other state.transitions node)
    (genuine : repository.Genuine cache) :
    ((repository.nextState node none).apply cache).1 =
        ((other.nextState node none).apply .empty).1 ∧
      repository.Genuine ((repository.nextState node none).apply cache).2 := by
  rw [nextState, nextState, Change.apply_bind, Change.apply_bind, Change.apply_ask,
    Change.apply_ask]
  rw [standing, standing] at stands
  cases found : repository.graph.node? node with
  | none =>
      rw [found, Option.map_none, Option.map_eq_none_iff] at stands
      rw [nodeOrFault, nodeOrFault, found, stands]
      exact ⟨rfl, genuine⟩
  | some here =>
      rw [found, Option.map_some, Option.map_eq_some_iff] at stands
      obtain ⟨there, isThere, sameState⟩ := stands
      have sameStates : other.graph.state? = repository.graph.state? := by
        funext id
        rw [state?, state?, states]
      rw [nodeOrFault, nodeOrFault, found, isThere]
      simp only [sameState, sameStates]
      cases inState : here.state.bind repository.graph.state? with
      | none => exact ⟨rfl, genuine⟩
      | some state =>
          obtain ⟨id, -, isState⟩ := Option.bind_eq_some_iff.mp inState
          have nothing (cache : GuardCache) : Covers cache [] := fun _ member => by cases member
          obtain ⟨agree, genuine⟩ := firstAdmitted_agree sourced isState (states ▸ sourced)
            (sameStates ▸ isState) (alike id state isState)
            (List.nil_append state.transitions).symm genuine (nothing cache) genuine_empty
            (nothing .empty)
          simp only [Change.apply_bind_pure, agree]
          exact ⟨trivial, genuine⟩

/-- The automatic step that a node can take. -/
def automaticStep? (repository : Repository) (node : NodeId) : Option Proposal :=
  match ((repository.nextState node none).apply .empty).1 with
  | .ok proposal => proposal
  | .error _ => none

/-- The automatic steps of those of some nodes that can take one. -/
def automaticSteps (repository : Repository) (nodes : List NodeId) : List Proposal :=
  nodes.filterMap repository.automaticStep?

/-- The proposals for some nodes are their automatic steps. -/
theorem proposals_eq (sourced : Sourced repository.graph.states) (nodes : List NodeId)
    (genuine : repository.Genuine cache) :
    (repository.proposals (nodes.map fun node => (node, none)) cache).1 =
      repository.automaticSteps nodes := by
  induction nodes generalizing cache with
  | nil => rfl
  | cons node rest inductionHypothesis =>
      obtain ⟨agree, genuine⟩ := nextState_agree node sourced rfl rfl
        (fun _ _ _ _ _ _ => rfl) genuine
      rw [List.map_cons, proposals, automaticSteps, List.filterMap_cons, automaticStep?, ← agree]
      cases run : (repository.nextState node none).apply cache with
      | mk answer kept =>
          rw [run] at genuine
          cases answer with
          | error fault => exact inductionHypothesis genuine
          | ok proposal =>
              cases proposal with
              | none => exact inductionHypothesis genuine
              | some proposal => exact congrArg (proposal :: ·) (inductionHypothesis genuine)

/-- An automatic step is one of the node, from the state that it is in. -/
theorem of_automaticStep? {node : NodeId} {proposal : Proposal}
    (isStep : repository.automaticStep? node = some proposal) :
    proposal.node = node ∧ repository.graph.standing node = some proposal.source := by
  rw [automaticStep?] at isStep
  split at isStep
  · rename_i answer
    obtain ⟨same, follows⟩ := of_nextState (answer.trans (congrArg Except.ok isStep))
    exact ⟨same, same ▸ follows.1⟩
  · cases isStep

/-- What is among the steps of some nodes is the step of its node, which is one of them. -/
theorem of_mem_automaticSteps {nodes : List NodeId} {proposal : Proposal}
    (member : proposal ∈ repository.automaticSteps nodes) :
    proposal.node ∈ nodes ∧ repository.automaticStep? proposal.node = some proposal ∧
      repository.graph.standing proposal.node = some proposal.source := by
  obtain ⟨node, isNode, isStep⟩ := List.mem_filterMap.mp member
  obtain ⟨rfl, inSource⟩ := of_automaticStep? isStep
  exact ⟨isNode, isStep, inSource⟩

/-- The nodes of some steps are those that have one. -/
theorem map_node_automaticSteps (repository : Repository) (nodes : List NodeId) :
    (repository.automaticSteps nodes).map Proposal.node =
      nodes.filter fun node => (repository.automaticStep? node).isSome := by
  rw [automaticSteps]
  induction nodes with
  | nil => rfl
  | cons node rest inductionHypothesis =>
      rw [List.filterMap_cons, List.filter_cons]
      cases isStep : repository.automaticStep? node with
      | none => exact inductionHypothesis
      | some proposal =>
          rw [List.map_cons, inductionHypothesis, (of_automaticStep? isStep).1]
          rfl

end Repository

end LifecycleGraph
