import LifecycleGraph.Proofs.Repository.Elementary
import LifecycleGraph.Proofs.Repository.Run

/-!
# What is in order in every reachable repository

The keys of the indices of tags and of states ascend, so that what stands in an index
is what is found in it, and every transition leaves from the state that has it and leads
to a declared one.  No change of nodes upsets this, whatever else it may be stopped by.
-/

set_option autoImplicit false

namespace LifecycleGraph

namespace Graph

variable {graph : Graph}

/-- The keys of the indices ascend, and transitions stay among states. -/
structure Ordered (graph : Graph) : Prop where
  tags : graph.tagMembers.Sorted
  states : graph.stateMembers.Sorted
  routed : Routed graph.states

theorem Ordered.sourced (ordered : graph.Ordered) : Sourced graph.states := ordered.routed.sourced

theorem Ordered.discard (ordered : graph.Ordered) (node : Node) :
    (graph.discard node).Ordered where
  tags := ordered.tags.dropAll node.tags node.id
  states := by
    rw [Graph.discard]
    cases node.state with
    | none => exact ordered.states
    | some state => exact ordered.states.dropMember state node.id
  routed := ordered.routed

theorem elementary_ordered : Elementary Ordered where
  touch _ _ _ ordered := ⟨ordered.tags, ordered.states, ordered.routed⟩
  list sorted ordered := ⟨sorted ordered.tags, ordered.states, ordered.routed⟩
  move _ _ _ _ sorted ordered := ⟨ordered.tags, sorted ordered.states, ordered.routed⟩
  describe _ _ _ _ ordered := ⟨ordered.tags, ordered.states, ordered.routed⟩
  enroll _ _ _ ordered := ⟨ordered.tags, ordered.states, ordered.routed⟩
  discard node ordered := ordered.discard node
  prune _ _ ordered := ⟨ordered.tags, ordered.states, ordered.routed⟩
  grown _ ordered := ⟨ordered.tags, ordered.states, ordered.routed⟩

theorem maintained_ordered : Maintained fun graph => graph.Listed ∧ graph.Ordered :=
  { elementary_ordered.sustained fun revised ordered =>
      ⟨ordered.tags, ordered.states, revised.routed ordered.routed⟩ with
    bare := by
      intro graph bare
      refine ⟨bare.listed, ?_, ?_, bare.routed⟩
      · rw [bare.tagMembers]
        exact Table.sorted_empty
      · rw [bare.stateMembers]
        exact Table.sorted_empty }

end Graph

open Graph in
/-- Whatever operations a repository was reached by, it is in order. -/
theorem Reached.ordered {allowed : Repository → Operation → Prop} {repository : Repository}
    (reached : Reached allowed repository) : repository.graph.Ordered := by
  have both := reached.holds maintained_ordered fun _ _ _ _ both _ defines => by
    refine ⟨both.1.reshape defines.1, ?_, ?_, ?_⟩
    · rw [defines.1.tagMembers]
      exact both.2.tags
    · rw [defines.1.stateMembers]
      exact both.2.states
    · rw [defines.1.states]
      exact both.2.routed
  exact both.2

end LifecycleGraph
