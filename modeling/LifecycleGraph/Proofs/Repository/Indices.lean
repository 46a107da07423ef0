import LifecycleGraph.Proofs.Forest.Removal
import LifecycleGraph.Proofs.Query.Leaf
import LifecycleGraph.Proofs.Repository.Elementary
import LifecycleGraph.Proofs.Repository.Run

/-!
# Exact indices, and handles that stay

After any run of operations the indices list exactly the nodes that belong there, in the
order of their handles; only the list of all nodes goes by types first.  Until a
repository is configured anew, a handle means what it meant when it was given: names of
types and states keep theirs, and no handle of a node or a tag that is gone comes back.
-/

set_option autoImplicit false

namespace LifecycleGraph

/-- The second forest comes from the first one, and no number was given twice. -/
structure Forest.Onwards (old new : Forest) : Prop where
  next_le : old.arena.next ≤ new.arena.next
  tags : ∀ {id tag}, new.find? id = some tag → id.index < old.arena.next →
    ∃ before, old.find? id = some before ∧ before.parent = tag.parent ∧ before.name = tag.name

namespace Forest.Onwards

theorem refl (forest : Forest) : forest.Onwards forest :=
  ⟨Nat.le_refl _, fun {_ tag} found _ => ⟨tag, found, rfl, rfl⟩⟩

theorem trans {first second third : Forest} (one : first.Onwards second)
    (two : second.Onwards third) : first.Onwards third where
  next_le := Nat.le_trans one.next_le two.next_le
  tags := by
    intro id tag found given
    obtain ⟨middle, found', parents, names⟩ :=
      two.tags found (Nat.lt_of_lt_of_le given one.next_le)
    obtain ⟨before, isBefore, parents', names'⟩ := one.tags found' given
    exact ⟨before, isBefore, parents'.trans parents, names'.trans names⟩

theorem of_grows {old new : Forest} (grows : old.Grows new) : old.Onwards new where
  next_le := grows.next_le
  tags := by
    intro id tag found given
    rcases grows.young found with present | younger
    · obtain ⟨before, isBefore⟩ := (contains_iff id).mp present
      obtain ⟨tag', found', parents, names⟩ := grows.kept isBefore
      rw [found] at found'
      cases found'
      exact ⟨before, isBefore, parents.symm, names.symm⟩
    · omega

theorem of_remove {forest : Forest} (rooted : forest.Rooted) (id : TagId) :
    forest.Onwards (forest.remove id).2 where
  next_le := Nat.le_of_eq (next_remove forest id).symm
  tags := by
    intro other tag found _
    obtain ⟨-, before, isBefore, rfl⟩ := find?_of_remove rooted found
    exact ⟨before, isBefore, rfl, rfl⟩

end Forest.Onwards

namespace Graph

/-- The second graph comes from the first one, and no handle means something else. -/
structure Onwards (old new : Graph) : Prop where
  types : old.types.names <+: new.types.names
  states : old.states.names <+: new.states.names
  tags : old.tags.Onwards new.tags
  next_le : old.nodes.next ≤ new.nodes.next
  nodes : ∀ {id node}, new.node? id = some node → id.index < old.nodes.next →
    ∃ before, old.node? id = some before ∧ before.type = node.type ∧ before.name = node.name

variable {start graph : Graph}

namespace Onwards

theorem refl (graph : Graph) : graph.Onwards graph where
  types := List.prefix_refl _
  states := List.prefix_refl _
  tags := .refl graph.tags
  next_le := Nat.le_refl _
  nodes := fun {_ node} found _ => ⟨node, found, rfl, rfl⟩

/-- Nodes may be changed as long as they keep their types and names. -/
theorem adjustNode (onwards : start.Onwards graph) (id : NodeId) (change : Node → Node)
    (same : ∀ node, (change node).type = node.type ∧ (change node).name = node.name) :
    start.Onwards (graph.adjustNode id change) where
  types := onwards.types
  states := onwards.states
  tags := onwards.tags
  next_le := by
    rw [Graph.adjustNode, Arena.next_modify]
    exact onwards.next_le
  nodes := by
    intro other node found given
    rw [node?_adjustNode] at found
    split at found
    · obtain ⟨middle, isMiddle, rfl⟩ := Option.map_eq_some_iff.mp found
      obtain ⟨before, isBefore, types, names⟩ := onwards.nodes isMiddle given
      exact ⟨before, isBefore, types.trans (same middle).1.symm, names.trans (same middle).2.symm⟩
    · exact onwards.nodes found given

theorem reshape (onwards : start.Onwards graph) {new : Graph} (reshapes : graph.Reshapes new) :
    start.Onwards new where
  types := onwards.types.trans reshapes.names
  states := by
    rw [reshapes.states]
    exact onwards.states
  tags := by
    rw [reshapes.tags]
    exact onwards.tags
  next_le := by
    rw [reshapes.nodes]
    exact onwards.next_le
  nodes := by
    intro id node found
    rw [Graph.node?, reshapes.nodes] at found
    exact onwards.nodes found

/-- A new node has a handle that was not given before. -/
theorem enroll (onwards : start.Onwards graph) (type : TypeId) (name : String) :
    start.Onwards (graph.enroll type name) where
  types := onwards.types
  states := onwards.states
  tags := onwards.tags
  next_le := by
    rw [Graph.enroll, Arena.next_push]
    exact Nat.le_succ_of_le onwards.next_le
  nodes := by
    intro id node found given
    have notNew : id ≠ graph.nextId := by
      rintro rfl
      exact Nat.not_lt.mpr onwards.next_le given
    rw [node?_enroll, if_neg notNew] at found
    exact onwards.nodes found given

theorem discard (onwards : start.Onwards graph) (node : Node) :
    start.Onwards (graph.discard node) where
  types := onwards.types
  states := onwards.states
  tags := onwards.tags
  next_le := by
    rw [Graph.discard, Arena.next_erase]
    exact onwards.next_le
  nodes := by
    intro id other found given
    rw [node?_discard] at found
    split at found
    · cases found
    · exact onwards.nodes found given

end Onwards

/-- No step gives a handle another meaning. -/
theorem elementary_onwards (start : Graph) : Elementary start.Onwards where
  touch id _ touches onwards := onwards.adjustNode id _ fun node =>
    ⟨(congrArg Node.type (touches.bared node) :), (congrArg Node.name (touches.bared node) :)⟩
  list _ onwards :=
    ⟨onwards.types, onwards.states, onwards.tags, onwards.next_le, onwards.nodes⟩
  move id state _ _ _ onwards :=
    have moved := onwards.adjustNode id (fun node => { node with state }) fun _ => ⟨rfl, rfl⟩
    ⟨moved.types, moved.states, moved.tags, moved.next_le, moved.nodes⟩
  describe id _ _ _ onwards := onwards.adjustNode id _ fun _ => ⟨rfl, rfl⟩
  enroll type name _ onwards := onwards.enroll type name
  discard node onwards := onwards.discard node
  prune tag linked onwards := ⟨onwards.types, onwards.states,
    onwards.tags.trans (.of_remove linked.rooted tag), onwards.next_le, onwards.nodes⟩
  grown grown onwards := ⟨onwards.types, onwards.states,
    onwards.tags.trans (.of_grows grown.2), onwards.next_le, onwards.nodes⟩

end Graph

/-- The operation configures the repository anew. -/
def Operation.Configures : Operation → Prop
  | configure _ => True
  | _ => False

open Graph Repository in
theorem onwards_run {repository : Repository} (listed : repository.graph.Listed)
    {operations : List Operation} (none : ∀ operation ∈ operations, ¬ operation.Configures) :
    repository.graph.Onwards (Operation.run operations repository).graph := by
  suffices both : ∀ {state : Repository},
      state.graph.Listed ∧ repository.graph.Onwards state.graph →
        repository.graph.Onwards (Operation.run operations state).graph from
    both ⟨listed, .refl _⟩
  induction operations with
  | nil => exact fun both => both.2
  | cons operation rest inductionHypothesis =>
      intro state both
      have sustained := (elementary_onwards repository.graph).sustained fun revised onwards =>
        ⟨onwards.types, onwards.states.trans revised.names, onwards.tags, onwards.next_le,
          onwards.nodes⟩
      refine inductionHypothesis (fun other member => none other (List.mem_cons_of_mem _ member))
        (keeps_operation sustained.toPlanted operation both ?_ ?_ ?_ ?_ ?_)
      · rintro content rfl
        exact absurd trivial (none _ (List.mem_cons_self ..))
      · exact fun _ => kept_refresh sustained.toExtending both
      · exact fun name declaration _ changed defines =>
          ⟨both.1.reshape defines.1, both.2.reshape defines.1⟩
      · exact fun name declaration _ =>
          keeps_definedState sustained.toExtending name declaration state both
      · exact fun mutation _ => keeps_mutation sustained.toTended mutation state both

namespace Graph

/-- The order in which all nodes are listed: by the declaration of their types, and the nodes
of a type by creation. -/
def Precedes (graph : Graph) (id other : NodeId) : Prop :=
  ∃ node after, graph.node? id = some node ∧ graph.node? other = some after ∧
    (node.type < after.type ∨ node.type = after.type ∧ id < other)

/-- What the indices list is exactly what the nodes say, and in which order. -/
structure IndicesExact (graph : Graph) : Prop where
  inState : ∀ state id, id ∈ graph.nodesInState state ↔
    ∃ node, graph.node? id = some node ∧ node.state = some state
  withTag : ∀ tag id, id ∈ graph.nodesWithTag tag ↔
    ∃ node, graph.node? id = some node ∧ tag ∈ node.tags
  tagsPresent : ∀ {id node}, graph.node? id = some node → ∀ tag ∈ node.tags,
    graph.tags.contains tag = true
  ofType : ∀ type id, id ∈ graph.nodesOfType type ↔
    ∃ node, graph.node? id = some node ∧ node.type = type
  named : ∀ {type members}, graph.membersOfType? type = some members → ∀ name id,
    members.byName.find? name = some id ↔
      ∃ node, graph.node? id = some node ∧ node.type = type ∧ node.name = name
  unique : ∀ {id other node another}, graph.node? id = some node →
    graph.node? other = some another → node.type = another.type → node.name = another.name →
      id = other
  everyNode : ∀ id, id ∈ graph.allNodes ↔ graph.Live id
  stateOrder : ∀ state, (graph.nodesInState state).Pairwise (· < ·)
  tagOrder : ∀ tag, (graph.nodesWithTag tag).Pairwise (· < ·)
  typeOrder : ∀ type, (graph.nodesOfType type).Pairwise (· < ·)
  everyOrder : graph.allNodes.Pairwise graph.Precedes
  rows : graph.typeMembers.length = graph.types.size
  rowOfType : ∀ type, (graph.membersOfType? type).isSome = (graph.type? type).isSome
  typeDeclared : ∀ {id node}, graph.node? id = some node → (graph.type? node.type).isSome = true
  nodeGiven : ∀ id, graph.Live id → id.index < graph.nodes.next
  tagGiven : ∀ tag, graph.tags.contains tag = true → tag.index < graph.tags.arena.next

namespace Listed

variable {graph : Graph}

theorem find?_byName (listed : graph.Listed) {type : TypeId} {members : TypeMembers}
    (found : graph.membersOfType? type = some members) (name : String) (id : NodeId) :
    members.byName.find? name = some id ↔
      ∃ node, graph.node? id = some node ∧ node.type = type ∧ node.name = name := by
  rw [listed.named found name id]
  constructor
  · intro given
    obtain ⟨entry, isEntry, isType, isName⟩ := given
    obtain ⟨node, isNode, rfl⟩ := node?_of_entryOf? isEntry
    exact ⟨node, isNode, isType, isName⟩
  · intro given
    obtain ⟨node, isNode, isType, isName⟩ := given
    exact ⟨node.entry, entryOf?_of_node? isNode, isType, isName⟩

theorem sorted_nodesOfType (listed : graph.Listed) (type : TypeId) :
    (graph.nodesOfType type).Pairwise (· < ·) := by
  rw [nodesOfType]
  cases found : graph.membersOfType? type with
  | none => exact .nil
  | some members => exact listed.typeOrder found

theorem precedes_allNodes (listed : graph.Listed) : graph.allNodes.Pairwise graph.Precedes := by
  have ofType {type : TypeId} {id : NodeId} (member : id ∈ graph.nodesOfType type) :=
    (listed.mem_nodesOfType type id).mp member
  rw [listed.allNodes_eq, List.pairwise_flatMap]
  constructor
  · intro type _
    refine (listed.sorted_nodesOfType type).imp_of_mem fun isFirst isSecond below => ?_
    obtain ⟨node, found, rfl⟩ := ofType isFirst
    obtain ⟨after, isAfter, same⟩ := ofType isSecond
    exact ⟨node, after, found, isAfter, .inr ⟨same.symm, below⟩⟩
  · rw [listed.schema.handles, List.pairwise_map]
    refine List.pairwise_lt_range.imp fun below id isFirst other isSecond => ?_
    obtain ⟨node, found, isType⟩ := ofType isFirst
    obtain ⟨after, isAfter, isOther⟩ := ofType isSecond
    refine ⟨node, after, found, isAfter, .inl ?_⟩
    rw [isType, isOther]
    exact below

theorem indicesExact (listed : graph.Listed) : graph.IndicesExact where
  inState := listed.mem_nodesInState
  withTag := listed.mem_nodesWithTag
  tagsPresent found tag member := listed.carried (entryOf?_of_node? found) member
  ofType := listed.mem_nodesOfType
  named := listed.find?_byName
  unique := by
    intro id other node another found foundOther types names
    obtain ⟨members, isMembers⟩ := listed.membersOfType? (listed.type_lt found)
    have one := (listed.find?_byName isMembers node.name id).mpr ⟨node, found, rfl, rfl⟩
    have two := (listed.find?_byName isMembers node.name other).mpr
      ⟨another, foundOther, types.symm, names.symm⟩
    exact Option.some.inj (one.symm.trans two)
  everyNode := listed.mem_allNodes
  stateOrder := listed.stateOrder.sorted_listed
  tagOrder := listed.tagOrder.sorted_listed
  typeOrder := listed.sorted_nodesOfType
  everyOrder := listed.precedes_allNodes
  rows := listed.rows
  rowOfType type := by
    rw [Bool.eq_iff_iff, isSome_type?_iff, ← listed.rows, Graph.membersOfType?]
    simp
  typeDeclared found := (isSome_type?_iff _).mpr (listed.type_lt found)
  nodeGiven id live := by
    obtain ⟨node, found⟩ := Option.isSome_iff_exists.mp live
    exact Arena.lt_next_of_find? found
  tagGiven tag present := by
    obtain ⟨held, found⟩ := (Forest.contains_iff tag).mp present
    exact Arena.lt_next_of_find? found

end Listed

end Graph

namespace Repository

/-- The indices of a repository are exact after any operations, and until it is configured
anew every handle that was given is of the same node or tag as before, or of none. -/
theorem indices_exact {repository : Repository} (reachable : Reachable repository) :
    repository.graph.IndicesExact ∧
    ∀ operations : List Operation, (∀ operation ∈ operations, ¬ operation.Configures) →
      repository.graph.Onwards (Operation.run operations repository).graph :=
  ⟨(Reached.listed reachable).indicesExact,
    fun _ none => onwards_run (Reached.listed reachable) none⟩

/-- Two types, and a node of the second one that is older than the node of the first. -/
def laterTypeFirst : List Operation :=
  [.addNodeType "Task" ⟨none, "", []⟩, .addNodeType "Bug" ⟨none, "", []⟩,
    .mutate (.addNode ⟨1⟩ "x"), .mutate (.addNode ⟨0⟩ "y")]

theorem reachable_laterTypeFirst : Reachable (Operation.run laterTypeFirst .empty) :=
  reachable_run _

/-- A node with the name of a removed one gets a handle of its own. -/
theorem indices_exact_laterTypeFirst :
    let repository := Operation.run laterTypeFirst .empty
    let renewed := Operation.run [.mutate (.removeNode ⟨0⟩), .mutate (.addNode ⟨1⟩ "x")] repository
    (∀ id, id ∈ repository.graph.allNodes ↔ repository.graph.Live id) ∧
      repository.graph.allNodes.Pairwise repository.graph.Precedes ∧
      repository.graph.Onwards renewed.graph ∧
      renewed.graph.nodesOfType ⟨1⟩ = [⟨2⟩] := by
  intro repository renewed
  obtain ⟨exact, onwards⟩ := indices_exact reachable_laterTypeFirst
  refine ⟨exact.everyNode, exact.everyOrder, onwards _ ?_, by decide⟩
  intro operation member
  simp only [List.mem_cons, List.not_mem_nil, or_false] at member
  rcases member with rfl | rfl <;> exact id

/-- The list of all nodes goes by types, not by handles. -/
theorem everyNode_not_ascending :
    Reachable (Operation.run laterTypeFirst .empty) ∧
      (Operation.run laterTypeFirst .empty).graph.allNodes = [⟨1⟩, ⟨0⟩] ∧
      ¬ (Operation.run laterTypeFirst .empty).graph.allNodes.Pairwise (· < ·) :=
  ⟨reachable_laterTypeFirst, by decide, by decide⟩

end Repository

end LifecycleGraph
