import LifecycleGraph.Proofs.Graph.Membership
import LifecycleGraph.Proofs.Query.Executor
import LifecycleGraph.Query.Evaluation

/-!
# Executors over the indices

Where the indices list exactly the nodes that belong there, the executors over
all nodes, over a type, a state, a tag or a single node enumerate what they
accept.
-/

set_option autoImplicit false

namespace LifecycleGraph

namespace Graph

/-- There is a node of a handle. -/
def Live (graph : Graph) (id : NodeId) : Prop := (graph.node? id).isSome = true

variable {graph : Graph}

theorem live_of_node? {id : NodeId} {node : Node} (found : graph.node? id = some node) :
    graph.Live id :=
  Option.isSome_iff_exists.mpr ⟨node, found⟩

theorem live_of_any {id : NodeId} {test : Node → Bool} (passes : (graph.node? id).any test = true) :
    graph.Live id := by
  obtain ⟨node, found, -⟩ := (Option.any_eq_true _ _).mp passes
  exact live_of_node? found

theorem live_iff_entryOf? (id : NodeId) :
    graph.Live id ↔ ∃ entry, graph.entryOf? id = some entry := by
  rw [Live, Option.isSome_iff_exists]
  constructor
  · intro given
    obtain ⟨node, found⟩ := given
    exact ⟨node.entry, entryOf?_of_node? found⟩
  · intro given
    obtain ⟨entry, isEntry⟩ := given
    obtain ⟨node, found, -⟩ := node?_of_entryOf? isEntry
    exact ⟨node, found⟩

namespace Listed

theorem mem_nodesOfType (listed : graph.Listed) (type : TypeId) (id : NodeId) :
    id ∈ graph.nodesOfType type ↔ ∃ node, graph.node? id = some node ∧ node.type = type := by
  rw [nodesOfType]
  cases found : graph.membersOfType? type with
  | none =>
      refine iff_of_false (fun none => by cases none) ?_
      intro given
      obtain ⟨node, isNode, rfl⟩ := given
      obtain ⟨members, isMembers⟩ := listed.membersOfType? (listed.type_lt isNode)
      rw [found] at isMembers
      cases isMembers
  | some members =>
      rw [Option.map_some, Option.getD_some, listed.typed found id]
      constructor
      · intro given
        obtain ⟨entry, isEntry, isType⟩ := given
        obtain ⟨node, isNode, rfl⟩ := node?_of_entryOf? isEntry
        exact ⟨node, isNode, isType⟩
      · intro given
        obtain ⟨node, isNode, isType⟩ := given
        exact ⟨node.entry, entryOf?_of_node? isNode, isType⟩

theorem nodup_nodesOfType (listed : graph.Listed) (type : TypeId) :
    (graph.nodesOfType type).Nodup := by
  rw [nodesOfType]
  cases found : graph.membersOfType? type with
  | none => exact List.nodup_nil
  | some members => exact (listed.typeOrder found).nodup

/-- Nodes of different types are different. -/
theorem disjoint_nodesOfType (listed : graph.Listed) {type other : TypeId}
    (different : type ≠ other) :
    List.Disjoint (graph.nodesOfType type) (graph.nodesOfType other) := by
  intro id member memberOther
  obtain ⟨node, found, isType⟩ := (listed.mem_nodesOfType type id).mp member
  obtain ⟨node', found', isOther⟩ := (listed.mem_nodesOfType other id).mp memberOther
  rw [found] at found'
  cases found'
  exact different (isType.symm.trans isOther)

theorem nodup_flatMap_nodesOfType (listed : graph.Listed) {types : List TypeId}
    (nodup : types.Nodup) : (types.flatMap graph.nodesOfType).Nodup :=
  List.nodup_flatMap.mpr ⟨fun type _ => listed.nodup_nodesOfType type,
    nodup.imp fun different => listed.disjoint_nodesOfType different⟩

/-- All nodes are the nodes of all types. -/
theorem allNodes_eq (listed : graph.Listed) :
    graph.allNodes = (graph.types.members.map NodeType.id).flatMap graph.nodesOfType := by
  rw [listed.schema.handles, ← listed.rows, List.flatMap_map, allNodes, List.flatMap_def,
    List.flatMap_def]
  refine congrArg List.flatten (List.ext_getElem? fun slot => ?_)
  by_cases below : slot < graph.typeMembers.length
  · simp [below, nodesOfType, Graph.membersOfType?]
  · simp [below]

theorem mem_allNodes (listed : graph.Listed) (id : NodeId) :
    id ∈ graph.allNodes ↔ graph.Live id := by
  rw [listed.allNodes_eq, List.mem_flatMap]
  constructor
  · intro given
    obtain ⟨type, -, member⟩ := given
    obtain ⟨node, found, -⟩ := (listed.mem_nodesOfType type id).mp member
    exact live_of_node? found
  · intro live
    obtain ⟨node, found⟩ := Option.isSome_iff_exists.mp live
    exact ⟨node.type, (listed.schema.mem_handles node.type).mpr (listed.type_lt found),
      (listed.mem_nodesOfType node.type id).mpr ⟨node, found, rfl⟩⟩

theorem nodup_allNodes (listed : graph.Listed) : graph.allNodes.Nodup := by
  rw [listed.allNodes_eq]
  exact listed.nodup_flatMap_nodesOfType listed.schema.nodup_handles

theorem mem_nodesInState (listed : graph.Listed) (state : StateId) (id : NodeId) :
    id ∈ graph.nodesInState state ↔
      ∃ node, graph.node? id = some node ∧ node.state = some state := by
  rw [nodesInState, Table.mem_listed_iff, listed.inState state id]
  constructor
  · intro given
    obtain ⟨entry, isEntry, isIn⟩ := given
    obtain ⟨node, found, rfl⟩ := node?_of_entryOf? isEntry
    exact ⟨node, found, isIn⟩
  · intro given
    obtain ⟨node, found, isIn⟩ := given
    exact ⟨node.entry, entryOf?_of_node? found, isIn⟩

theorem mem_nodesWithTag (listed : graph.Listed) (tag : TagId) (id : NodeId) :
    id ∈ graph.nodesWithTag tag ↔ ∃ node, graph.node? id = some node ∧ tag ∈ node.tags := by
  rw [nodesWithTag, Table.mem_listed_iff, listed.tagged tag id]
  constructor
  · intro given
    obtain ⟨entry, isEntry, member⟩ := given
    obtain ⟨node, found, rfl⟩ := node?_of_entryOf? isEntry
    exact ⟨node, found, member⟩
  · intro given
    obtain ⟨node, found, member⟩ := given
    exact ⟨node.entry, entryOf?_of_node? found, member⟩

/-- A name that finds a node finds one that is there. -/
theorem live_of_nodeNamed? (listed : graph.Listed) {name : String} {type : Option TypeId}
    {id : NodeId} (found : graph.nodeNamed? name type = .ok (some id)) : graph.Live id := by
  have unique {name : String} {types : List TypeId}
      (only : graph.uniqueAmong name types = .ok (some id)) : graph.Live id := by
    rw [uniqueAmong] at only
    split at only
    · cases only
    · rename_i inType onlyId isOnly
      cases only
      have member : (inType, id) ∈ graph.namedAmong name types := by
        rw [isOnly]
        exact List.mem_singleton.mpr rfl
      obtain ⟨other, -, named⟩ := List.mem_filterMap.mp member
      obtain ⟨known, isKnown, same⟩ := Option.map_eq_some_iff.mp named
      obtain ⟨members, isMembers, byName⟩ := Option.bind_eq_some_iff.mp isKnown
      cases same
      obtain ⟨entry, isEntry, -⟩ := (listed.named isMembers name id).mp byName
      exact (live_iff_entryOf? id).mpr ⟨entry, isEntry⟩
    · cases only
  rw [nodeNamed?] at found
  simp only at found
  split at found
  · split at found
    · exact unique found
    · cases found
  · cases type with
    | none => exact unique found
    | some type => exact unique found

end Listed

end Graph

namespace NodeExecutor

open Executor

variable {graph : Graph}

theorem length_flatMap {α β : Type} (part : α → List β) (list : List α) :
    (list.flatMap part).length = total (fun member => (part member).length) list := by
  induction list with
  | nil => rfl
  | cons member rest inductionHypothesis =>
      rw [List.flatMap_cons, List.length_append, inductionHypothesis, total]

theorem lawful_everything (listed : graph.Listed) :
    (everything graph).Lawful graph.Live := by
  refine lawful_enumerated listed.nodup_allNodes listed.mem_allNodes (fun _ live => live) ?_
  exact Nat.le_of_eq (length_flatMap _ _)

@[simp] theorem accepts_everything (graph : Graph) (id : NodeId) :
    (everything graph).accepts id = (graph.node? id).isSome := rfl

theorem lawful_ofType (listed : graph.Listed) (type : TypeId) :
    (ofType graph type).Lawful graph.Live := by
  refine lawful_enumerated
    (listed.nodup_flatMap_nodesOfType (listed.schema.nodup_subtypes type)) (fun id => ?_)
    (fun _ => Graph.live_of_any) (Nat.le_of_eq (length_flatMap _ _))
  rw [List.mem_flatMap, Option.any_eq_true]
  constructor
  · intro given
    obtain ⟨member, isSubtype, inType⟩ := given
    obtain ⟨node, found, rfl⟩ := (listed.mem_nodesOfType member id).mp inType
    exact ⟨node, found, List.contains_iff_mem.mpr isSubtype⟩
  · intro given
    obtain ⟨node, found, isSubtype⟩ := given
    exact ⟨node.type, List.contains_iff_mem.mp isSubtype,
      (listed.mem_nodesOfType node.type id).mpr ⟨node, found, rfl⟩⟩

/-- A type accepts the nodes with the type on their base chain. -/
theorem accepts_ofType (listed : graph.Listed) (type : TypeId) (id : NodeId) :
    (ofType graph type).accepts id =
      (graph.node? id).any fun node => graph.isSubtype node.type type := by
  have unfolded : (ofType graph type).accepts id =
      (graph.node? id).any fun node => (graph.subtypes type).contains node.type := rfl
  rw [unfolded]
  cases found : graph.node? id with
  | none => rfl
  | some node =>
      rw [Option.any_some, Option.any_some, Bool.eq_iff_iff, List.contains_iff_mem,
        listed.schema.mem_subtypes]
      exact and_iff_right (listed.type_lt found)

theorem lawful_ofNode {id : NodeId} (live : graph.Live id) : (ofNode id).Lawful graph.Live := by
  refine lawful_enumerated (List.nodup_singleton id) (fun other => ?_) (fun other accepted => ?_)
    (Nat.le_refl _)
  · rw [List.mem_singleton, beq_iff_eq]
  · rw [beq_iff_eq] at accepted
    rwa [accepted]

@[simp] theorem accepts_ofNode (id other : NodeId) :
    (ofNode id).accepts other = (other == id) := rfl

theorem lawful_ofState (listed : graph.Listed) (state : StateId) :
    (ofState graph state).Lawful graph.Live := by
  refine lawful_enumerated (listed.stateOrder.nodup_listed state) (fun id => ?_)
    (fun _ => Graph.live_of_any) (Nat.le_refl _)
  refine (listed.mem_nodesInState state id).trans ?_
  simp [Option.any_eq_true]

@[simp] theorem accepts_ofState (graph : Graph) (state : StateId) (id : NodeId) :
    (ofState graph state).accepts id =
      (graph.node? id).any fun node => node.state == some state := rfl

theorem lawful_ofTag (listed : graph.Listed) (tag : TagId) :
    (ofTag graph tag).Lawful graph.Live := by
  refine lawful_enumerated (Ascending.sorted_ofList _).nodup (fun id => ?_)
    (fun _ => Graph.live_of_any) ?_
  · rw [Ascending.mem_ofList, List.mem_flatMap, Option.any_eq_true]
    simp only [List.any_eq_true]
    constructor
    · intro given
      obtain ⟨held, reached, carrier⟩ := given
      obtain ⟨node, found, member⟩ := (listed.mem_nodesWithTag held id).mp carrier
      exact ⟨node, found, held, member, (listed.linked.rooted.isa_of_mem_walk reached).2⟩
    · intro given
      obtain ⟨node, found, held, member, isa⟩ := given
      have live := listed.carried (Graph.entryOf?_of_node? found) member
      exact ⟨held, (listed.linked.rooted.mem_walk_iff tag held).mpr ⟨live, isa⟩,
        (listed.mem_nodesWithTag held id).mpr ⟨node, found, member⟩⟩
  · exact Nat.le_trans (Ascending.length_ofList_le _) (Nat.le_of_eq (length_flatMap _ _))

@[simp] theorem accepts_ofTag (graph : Graph) (tag : TagId) (id : NodeId) :
    (ofTag graph tag).accepts id =
      (graph.node? id).any fun node => node.tags.any fun held => graph.tags.isa held tag := rfl

end NodeExecutor

end LifecycleGraph
