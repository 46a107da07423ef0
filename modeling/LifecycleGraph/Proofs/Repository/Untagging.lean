import LifecycleGraph.Proofs.Repository.TagListing

/-!
# Tags that are taken from nodes

One occurrence of a tag is taken out of the flat list of a node, whether or not a value of the
node holds the tag.  Nothing else changes but the index of tags.  So an intact graph stays so
exactly if no value of a tag property of the node holds the tag, or the flat list has it more
than once.
-/

set_option autoImplicit false

namespace LifecycleGraph

namespace Graph

variable {graph old new : Graph} {id : NodeId} {node : Node} {tags : List TagId}

/-! ## Another flat list -/

/-- The second graph is the first one with another flat list of one node, and with another index
of tags. -/
structure Relists (id : NodeId) (node : Node) (tags : List TagId) (old new : Graph) : Prop where
  found : old.node? id = some node
  node? : ∀ other, new.node? other = if other = id then some { node with tags } else old.node? other
  frame : new = { old with nodes := new.nodes, tagMembers := new.tagMembers }

namespace Relists

variable (relists : Relists id node tags old new)

include relists

theorem types : new.types = old.types := by rw [relists.frame]

theorem valueAt? (holder : NodeId) (property : PropertyId) :
    new.valueAt? holder property = old.valueAt? holder property := by
  rw [Graph.valueAt?, Graph.valueAt?, relists.node?]
  split
  · rename_i same
    rw [same, relists.found]
    rfl
  · rfl

theorem refersBack (target : NodeId) (property : PropertyId) (source : NodeId) :
    new.refersBack target property source = old.refersBack target property source := by
  rw [Graph.refersBack, Graph.refersBack, relists.node?]
  split
  · rename_i same
    rw [same, relists.found]
    rfl
  · rfl

/-- An intact graph stays so exactly if the new list has each tag that the node holds. -/
theorem intact_iff (intact : old.Intact) :
    new.Intact ↔ ∀ tag, old.HoldsTag node tag → tag ∈ tags := by
  have properties : new.property? = old.property? := property?_of_types relists.types
  constructor
  · rintro newIntact tag ⟨property, declared, value, isDeclared, isTag, isValue, member⟩
    have isNode : new.node? id = some { node with tags } := by rw [relists.node?, if_pos rfl]
    obtain ⟨again, isAgain, backed⟩ := newIntact.held isNode isValue
    rw [properties, isDeclared] at isAgain
    obtain rfl := Option.some.inj isAgain
    exact backed.tags isTag tag member
  · refine fun lists => ⟨fun {holder there property value} found isValue => ?_,
      fun {target property source} refers => ?_⟩
    · rw [relists.node?] at found
      rw [properties]
      split at found
      · rename_i same
        obtain rfl := Option.some.inj found
        obtain ⟨declared, isDeclared, backed⟩ := intact.held relists.found isValue
        refine ⟨declared, isDeclared, fun isNode target member => ?_, fun isTag tag member => ?_⟩
        · rw [relists.refersBack, same]
          exact backed.nodes isNode target member
        · exact lists tag ⟨property, declared, value, isDeclared, isTag, isValue, member⟩
      · obtain ⟨declared, isDeclared, backed⟩ := intact.held found isValue
        refine ⟨declared, isDeclared, fun isNode target member => ?_, backed.tags⟩
        rw [relists.refersBack]
        exact backed.nodes isNode target member
    · rw [relists.refersBack] at refers
      rw [relists.valueAt?]
      exact intact.referred refers

end Relists

/-! ## A flat list that loses an occurrence -/

/-- The answer tells whether the flat list had the tag, of which it loses one occurrence. -/
theorem removeTag_apply (listed : graph.Listed) (found : graph.node? id = some node)
    (tag : TagId) :
    ∃ changed, (removeTag id tag).apply graph = (.ok (node.tags.contains tag), changed) ∧
      Relists id node (node.tags.erase tag) graph changed := by
  obtain rfl := listed.id_eq found
  simp only [removeTag, Change.apply_ofFunction, found]
  by_cases isListed : node.tags.contains tag = true
  · rw [if_pos isListed, isListed]
    refine ⟨_, rfl, found, fun other => ?_, rfl⟩
    have sameNode : (graph.dropTag node tag).node? other =
        (graph.adjustNode node.id fun node' =>
          { node' with tags := node.tags.erase tag }).node? other := rfl
    rw [sameNode, node?_adjustNode]
    split
    · rename_i same
      rw [same, found, Option.map_some]
    · rfl
  · rw [if_neg isListed]
    have absent : tag ∉ node.tags := fun member => isListed (List.contains_iff_mem.mpr member)
    refine ⟨graph, by rw [Bool.eq_false_iff.mpr isListed], found, fun other => ?_, rfl⟩
    rw [List.erase_of_not_mem absent]
    split
    · rename_i same
      rw [same, found]
    · rfl

theorem mem_erase_self_iff (tags : List TagId) (tag : TagId) :
    tag ∈ tags.erase tag ↔ 1 < tags.count tag := by
  rw [← List.count_pos_iff, List.count_erase_self]
  omega

/-- Every tag that the node holds is left in the list, but for one that occurred once and was
taken. -/
theorem Intact.lists_erase_iff (intact : graph.Intact) (found : graph.node? id = some node)
    (tag : TagId) :
    (∀ other, graph.HoldsTag node other → other ∈ node.tags.erase tag) ↔
      (graph.HoldsTag node tag → 1 < node.tags.count tag) := by
  constructor
  · exact fun lists holds => (mem_erase_self_iff node.tags tag).mp (lists tag holds)
  · intro often other holds
    by_cases same : other = tag
    · rw [same] at holds ⊢
      exact (mem_erase_self_iff node.tags tag).mpr (often holds)
    · exact (List.mem_erase_of_ne same).mpr (intact.mem_tags found holds)

end Graph

namespace Repository

open Graph

variable {repository : Repository}

/-- In a repository that passes the check a tag is taken from a node that is there, once and from
its flat list alone.  All other tags that the node holds stay listed, and the repository passes
the check again exactly if the node does not hold the tag or the list had it more than once, as
it does if it had the tag more often than the values do. -/
theorem checkIntegrity_untagged (reachable : Reachable repository)
    (passes : repository.graph.checkIntegrity = .ok ()) {id : NodeId} {node : Node}
    (found : repository.graph.node? id = some node) (tag : TagId) :
    ∃ changed, (onGraph (Graph.removeTag id tag)).apply repository =
        (.ok (node.tags.contains tag), { repository with graph := changed }) ∧
      Relists id node (node.tags.erase tag) repository.graph changed ∧
      (∀ other, repository.graph.HoldsTag node other → other ≠ tag →
        other ∈ node.tags.erase tag) ∧
      (changed.checkIntegrity = .ok () ↔
        (repository.graph.HoldsTag node tag → 1 < node.tags.count tag)) ∧
      ((repository.graph.heldTags node.properties).count tag < node.tags.count tag →
        changed.checkIntegrity = .ok ()) := by
  have intact := (Reached.checkIntegrity_eq_ok_iff reachable).mp passes
  obtain ⟨changed, applied, relists⟩ := removeTag_apply (Reached.listed reachable) found tag
  have performed : (onGraph (Graph.removeTag id tag)).apply repository =
      (.ok (node.tags.contains tag), { repository with graph := changed }) := by
    rw [onGraph, Change.apply_within, applied]
  have further : Reachable { repository with graph := changed } := by
    have step : Reachable ((Operation.mutate (.removeTag id tag)).perform.apply repository).2 :=
      reachable.step trivial
    rwa [Operation.perform, Mutation.perform, Change.apply_bind_pure, performed] at step
  have passesAgain : changed.checkIntegrity = .ok () ↔
      (repository.graph.HoldsTag node tag → 1 < node.tags.count tag) :=
    (Reached.checkIntegrity_eq_ok_iff further).trans
      ((relists.intact_iff intact).trans (intact.lists_erase_iff found tag))
  refine ⟨changed, performed, relists, fun other holds different => ?_, passesAgain,
    fun spare => passesAgain.mpr fun holds => ?_⟩
  · exact (List.mem_erase_of_ne different).mpr (intact.mem_tags found holds)
  · have sorted := (Reached.kempt reachable id node found).properties
    have held := List.count_pos_iff.mpr ((mem_heldTags_iff repository.graph sorted tag).mpr holds)
    omega

/-- The tag of two values is taken once, and is still in the flat list for both of them. -/
theorem checkIntegrity_untagged_labelledNode :
    (Operation.run labelledNode .empty).graph.checkIntegrity = .ok () ∧
    ∃ node changed, (Operation.run labelledNode .empty).graph.node? ⟨0⟩ = some node ∧
      (onGraph (Graph.removeTag ⟨0⟩ ⟨0⟩)).apply (Operation.run labelledNode .empty) =
        (.ok true, { Operation.run labelledNode .empty with graph := changed }) ∧
      (changed.node? ⟨0⟩).map Node.tags = some [⟨0⟩] ∧ changed.checkIntegrity = .ok () := by
  have reachable : Reachable (Operation.run labelledNode .empty) := reachable_run _
  have passes : (Operation.run labelledNode .empty).graph.checkIntegrity = .ok () :=
    eq_ok_of_toOption (by decide)
  have lists : ((Operation.run labelledNode .empty).graph.node? ⟨0⟩).map Node.tags =
      some [⟨0⟩, ⟨0⟩] := by
    decide
  obtain ⟨node, found, tags⟩ := Option.map_eq_some_iff.mp lists
  obtain ⟨changed, applied, relists, -, passesAgain, -⟩ :=
    checkIntegrity_untagged reachable passes found ⟨0⟩
  refine ⟨passes, node, changed, found, ?_, ?_, passesAgain.mpr fun _ => ?_⟩
  · rw [applied, tags]
    rfl
  · rw [relists.node?, if_pos rfl, tags]
    rfl
  · rw [tags]
    decide

/-- A node of a type with a single tag property, for which it has a tag. -/
def taggedJob : Repository :=
  Operation.run
    [.newTag none "t", .addNodeType "job" ⟨none, "", [("one", .text "tag")]⟩,
      .mutate (.addNode ⟨0⟩ "a"), .mutate (.setProperty ⟨0⟩ ⟨⟨0⟩, 0⟩ (.tag ⟨0⟩))]
    .empty

/-- The tag is taken though the value holds it, and the repository fails the check. -/
theorem held_tag_taken :
    let untagged := (onGraph (Graph.removeTag ⟨0⟩ ⟨0⟩)).apply taggedJob
    Reachable taggedJob ∧ taggedJob.graph.checkIntegrity.toOption = some () ∧
      (taggedJob.graph.property? ⟨⟨0⟩, 0⟩).any Property.isTag = true ∧
      untagged.1.toOption = some true ∧
      (untagged.2.graph.valueAt? ⟨0⟩ ⟨⟨0⟩, 0⟩).map Value.tags = some [⟨0⟩] ∧
      (untagged.2.graph.node? ⟨0⟩).map Node.tags = some [] ∧
      untagged.2.graph.checkIntegrity.toOption = none :=
  ⟨reachable_run _, by decide, by decide, by decide, by decide, by decide, by decide⟩

end Repository

end LifecycleGraph
