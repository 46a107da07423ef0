import LifecycleGraph.Proofs.Forest.Path
import LifecycleGraph.Proofs.Forest.Run
import LifecycleGraph.Proofs.Repository.Indices
import LifecycleGraph.Proofs.Repository.Order
import LifecycleGraph.Proofs.Text.Parts

/-!
# Names that lead back

States and types are found by their names.  The name of a node is looked up among its type
and those that derive from it, also where the type stands in front of the name: it finds the
node if no other one there has the name, and nothing else.  A node of a reachable repository
has a valid name and a declared state.  Tags are told apart by their absolute names, in every
forest and in every repository that is reached.
-/

set_option autoImplicit false

namespace LifecycleGraph

/-! ## Nodes -/

namespace Graph

variable {graph : Graph}

/-- No two nodes have the same name. -/
def DistinctlyNamed (graph : Graph) : Prop :=
  ∀ id other node another, graph.node? id = some node → graph.node? other = some another →
    node.name = another.name → id = other

theorem distinctlyNamed_of_nodup (nodup : (graph.nodes.values.map Node.name).Nodup) :
    graph.DistinctlyNamed := by
  intro ⟨index⟩ ⟨other⟩ node another found isOther same
  exact congrArg NodeId.mk (graph.nodes.index_eq_of_nodup Node.name nodup found isOther same)

theorem not_mem_of_validNodeName {name : String} (valid : validNodeName name = true) :
    ':' ∉ name.toList := by
  simp only [validNodeName, Bool.and_eq_true, Bool.not_eq_true', List.contains_eq_mem,
    decide_eq_false_iff_not] at valid
  exact valid.2

theorem isSubtype_self (graph : Graph) (id : TypeId) : graph.isSubtype id id = true := by
  rw [isSubtype, ancestors, chainFrom]
  cases graph.base? id <;> simp

/-- The node is there, of the type and with the name. -/
def IsCalled (graph : Graph) (type : TypeId) (name : String) (id : NodeId) : Prop :=
  ∃ node, graph.node? id = some node ∧ node.type = type ∧ node.name = name

/-- The other node is of a type that derives from that of the node, or of the same, and has the
name of the node. -/
def IsHomonym (graph : Graph) (node : Node) (type : TypeId) (other : NodeId) : Prop :=
  graph.isSubtype type node.type = true ∧ graph.IsCalled type node.name other

/-- A search that comes to an answer is the answer. -/
theorem nodeNamed_of_nodeNamed? {name : String} {asked : Option TypeId}
    {answer : Except Fault NodeId} (searched : graph.nodeNamed? name asked = answer.map some) :
    graph.nodeNamed name asked = answer := by
  rw [nodeNamed, searched]
  cases answer <;> rfl

section Listed

variable (listed : graph.Listed)

include listed

theorem mem_namedAmong_iff (name : String) (types : List TypeId) (type : TypeId) (id : NodeId) :
    (type, id) ∈ graph.namedAmong name types ↔ type ∈ types ∧ graph.IsCalled type name id := by
  rw [namedAmong, List.mem_filterMap]
  constructor
  · rintro ⟨other, member, given⟩
    obtain ⟨found, isFound, same⟩ := Option.map_eq_some_iff.mp given
    cases same
    obtain ⟨members, isMembers, isNamed⟩ := Option.bind_eq_some_iff.mp isFound
    exact ⟨member, (listed.find?_byName isMembers name id).mp isNamed⟩
  · rintro ⟨member, node, found, rfl, isName⟩
    obtain ⟨members, isMembers⟩ := listed.membersOfType? (listed.type_lt found)
    refine ⟨node.type, member, Option.map_eq_some_iff.mpr ⟨id, ?_, rfl⟩⟩
    exact Option.bind_eq_some_iff.mpr
      ⟨members, isMembers, (listed.find?_byName isMembers name id).mpr ⟨node, found, rfl, isName⟩⟩

omit listed in
variable (graph) in
theorem nodup_namedAmong (name : String) {types : List TypeId} (nodup : types.Nodup) :
    ((graph.namedAmong name types).map Prod.fst).Nodup := by
  refine nodup.sublist ?_
  rw [namedAmong]
  induction types with
  | nil => exact .slnil
  | cons type rest inductionHypothesis =>
      have onwards := inductionHypothesis (List.nodup_cons.mp nodup).2
      rw [List.filterMap_cons]
      split
      · exact onwards.cons type
      · rename_i entry isEntry
        obtain ⟨id, -, rfl⟩ := Option.map_eq_some_iff.mp isEntry
        exact onwards.cons_cons type

/-- The name of a node finds it among some types, or two of them have nodes of this name. -/
theorem uniqueAmong_of_found {id : NodeId} {node : Node} (found : graph.node? id = some node)
    {types : List TypeId} (nodup : types.Nodup) (member : node.type ∈ types) :
    (graph.uniqueAmong node.name types = .ok (some id) ∧
        ∀ type other, type ∈ types → graph.IsCalled type node.name other → other = id) ∨
      ∃ first second one another, first ≠ second ∧
        (first ∈ types ∧ graph.IsCalled first node.name one) ∧
        (second ∈ types ∧ graph.IsCalled second node.name another) ∧
        graph.uniqueAmong node.name types =
          .error (.ambiguous node.name (graph.typeName first) (graph.typeName second)) := by
  have isEntry := mem_namedAmong_iff listed node.name types
  have own := (isEntry node.type id).mpr ⟨member, node, found, rfl, rfl⟩
  have apart := graph.nodup_namedAmong node.name nodup
  rw [uniqueAmong]
  cases entries : graph.namedAmong node.name types with
  | nil =>
      rw [entries] at own
      cases own
  | cons entry rest =>
      obtain ⟨first, one⟩ := entry
      rw [entries] at isEntry own apart
      cases rest with
      | nil =>
          refine .inl ⟨?_, fun type other isType called => ?_⟩
          · cases List.mem_singleton.mp own
            rfl
          · have also := (isEntry type other).mpr ⟨isType, called⟩
            cases (List.mem_singleton.mp also).trans (List.mem_singleton.mp own).symm
            rfl
      | cons entry rest =>
          obtain ⟨second, another⟩ := entry
          refine .inr ⟨first, second, one, another, ?_, ?_, ?_, rfl⟩
          · rintro rfl
            exact (List.nodup_cons.mp apart).1 (List.mem_cons_self ..)
          · exact (isEntry first one).mp (List.mem_cons_self ..)
          · exact (isEntry second another).mp (List.mem_cons_of_mem _ (List.mem_cons_self ..))

/-- The name of a node finds it where its own type is asked for, or two types that derive from
its type have nodes of this name. -/
theorem nodeNamed?_own {id : NodeId} {node : Node} (found : graph.node? id = some node)
    (valid : validNodeName node.name = true) :
    (graph.nodeNamed? node.name (some node.type) = .ok (some id) ∧
        ∀ type other, graph.IsHomonym node type other → other = id) ∨
      ∃ first second one another, first ≠ second ∧ graph.IsHomonym node first one ∧
        graph.IsHomonym node second another ∧
        graph.nodeNamed? node.name (some node.type) =
          .error (.ambiguous node.name (graph.typeName first) (graph.typeName second)) := by
  have isSubtype (type : TypeId) := listed.schema.mem_subtypes node.type type
  have own := (isSubtype node.type).mpr ⟨listed.type_lt found, isSubtype_self graph node.type⟩
  have among : graph.nodeNamed? node.name (some node.type) =
      graph.uniqueAmong node.name (graph.subtypes node.type) := by
    simp only [nodeNamed?, Text.cutOnce?_of_not_mem (not_mem_of_validNodeName valid)]
  rw [among]
  rcases uniqueAmong_of_found listed found (listed.schema.nodup_subtypes node.type) own with
    ⟨isFound, alone⟩ | ⟨first, second, one, another, different, isFirst, isSecond, refused⟩
  · refine .inl ⟨isFound, fun type other homonym => ?_⟩
    obtain ⟨below, called⟩ := homonym
    have declared : type.index < graph.types.size := by
      obtain ⟨twin, isTwin, rfl, -⟩ := called
      exact listed.type_lt isTwin
    exact alone type other ((isSubtype type).mpr ⟨declared, below⟩) called
  · exact .inr ⟨first, second, one, another, different,
      ⟨((isSubtype first).mp isFirst.1).2, isFirst.2⟩,
      ⟨((isSubtype second).mp isSecond.1).2, isSecond.2⟩, refused⟩

/-- With the name of its type in front, the name of a node is looked up as where its type is
asked for. -/
theorem nodeNamed?_qualified {id : TypeId} {type : NodeType} (isType : graph.type? id = some type)
    (plain : ':' ∉ type.name.toList) {name : String} (valid : validNodeName name = true)
    (asked : Option TypeId) :
    graph.nodeNamed? (type.name ++ ":" ++ name) asked = graph.nodeNamed? name (some id) := by
  simp only [nodeNamed?, Text.cutOnce?_qualified plain, listed.schema.typeId?_eq isType,
    Text.cutOnce?_of_not_mem (not_mem_of_validNodeName valid)]

/-- Where the names of all nodes are different, each of them is found by its name. -/
theorem nodeNamed?_of_distinct (distinct : graph.DistinctlyNamed) {id : NodeId} {node : Node}
    (found : graph.node? id = some node) (valid : validNodeName node.name = true) :
    graph.nodeNamed? node.name (some node.type) = .ok (some id) := by
  rcases nodeNamed?_own listed found valid with ⟨isFound, -⟩ |
    ⟨first, second, one, another, different, ⟨-, twin, isTwin, rfl, isName⟩,
      ⟨-, other, isOther, rfl, isOtherName⟩, -⟩
  · exact isFound
  · obtain rfl := distinct one another twin other isTwin isOther (isName.trans isOtherName.symm)
    exact absurd (congrArg Node.type (Option.some.inj (isTwin.symm.trans isOther))) different

end Listed

/-! ## States -/

/-- The name of a declared state leads back to it. -/
theorem Ordered.stateId?_stateName (ordered : graph.Ordered) {id : StateId}
    (declared : id.index < graph.states.size) : graph.stateId? (graph.stateName id) = some id := by
  obtain ⟨state, found⟩ := Option.isSome_iff_exists.mp
    ((graph.states.isSome_at?_iff id.index).mpr declared)
  have isState : graph.state? id = some state := found
  rw [stateName, isState, stateId?]
  simp [ordered.routed.keyed.slotOf?_eq found]

end Graph

/-! ## What nodes keep -/

/-- A node has a valid name and a declared state, its services are in the order of their
names, and its tables are kempt. -/
structure Node.Proper (states : Nat) (node : Node) : Prop extends node.Kempt where
  name : Graph.validNodeName node.name = true
  state : ∀ state, node.state = some state → state.index < states
  services : node.services.Sorted

namespace Graph

variable {graph : Graph}

def Proper (graph : Graph) : Prop :=
  ∀ id node, graph.node? id = some node → node.Proper graph.states.size

theorem Proper.adjustNode (proper : graph.Proper) (id : NodeId) {change : Node → Node}
    (changes : ∀ node, node.Proper graph.states.size →
      (change node).Proper graph.states.size) : (graph.adjustNode id change).Proper := by
  intro other node found
  rw [node?_adjustNode] at found
  split at found
  · obtain ⟨before, isBefore, rfl⟩ := Option.map_eq_some_iff.mp found
    exact changes before (proper other before isBefore)
  · exact proper other node found

theorem elementary_proper : Elementary Proper where
  touch id change touches proper := proper.adjustNode id fun node was => by
    have same := touches.bared node
    have names : (change node).name = node.name := (congrArg Node.name same :)
    have states : (change node).state = node.state := (congrArg Node.state same :)
    have services : (change node).services = node.services := (congrArg Node.services same :)
    exact ⟨touches.kempt node was.toKempt, names ▸ was.name, states ▸ was.state,
      services ▸ was.services⟩
  list _ proper := proper
  move {graph} id state _ declared _ proper := proper.adjustNode id fun node was => by
    refine ⟨⟨was.properties, was.referrers, was.filled⟩, was.name, fun target isTarget => ?_,
      was.services⟩
    exact (graph.states.isSome_at?_iff target.index).mp (declared target isTarget)
  describe id _ _ sorted proper := proper.adjustNode id fun node was =>
    ⟨⟨was.properties, was.referrers, was.filled⟩, was.name, was.state, sorted⟩
  enroll {graph} type name valid proper := by
    intro id node found
    rw [node?_enroll] at found
    split at found
    · obtain rfl := Option.some.inj found
      refine ⟨⟨Table.sorted_empty, Table.sorted_empty, fun _ _ isValue => ?_⟩, valid,
        fun state isState => ?_, Table.sorted_empty⟩
      · cases isValue
      · cases isState
    · exact proper id node found
  discard node proper := by
    intro id other found
    rw [node?_discard] at found
    split at found
    · cases found
    · exact proper id other found
  prune _ _ proper := proper
  grown _ proper := proper

theorem Proper.revise (proper : graph.Proper) {states : Roster State Unit}
    (revised : Revises graph.states states) : Proper { graph with states } := by
  intro id node found
  have was := proper id node found
  exact ⟨was.toKempt, was.name,
    fun state isState => Nat.lt_of_lt_of_le (was.state state isState) revised.size_le,
    was.services⟩

theorem maintained_proper : Maintained fun graph => graph.Listed ∧ graph.Proper :=
  { elementary_proper.sustained fun revised proper => proper.revise revised with
    bare := fun _ bare => ⟨bare.listed, fun id node found => by
      rw [bare.node? id] at found
      cases found⟩ }

end Graph

open Graph in
theorem Reached.proper {allowed : Repository → Operation → Prop} {repository : Repository}
    (reached : Reached allowed repository) : repository.graph.Proper := by
  have both := reached.holds maintained_proper fun _ _ _ _ both _ defines => by
    refine ⟨both.1.reshape defines.1, fun id node found => ?_⟩
    rw [node?, defines.1.nodes] at found
    rw [defines.1.states]
    exact both.2 id node found
  exact both.2

/-! ## Tags -/

/-- The absolute name of a tag names it alone, and dotted names find the tags whose paths end
with them, whatever a forest or a repository was reached by. -/
theorem tags_addressed (growth : List Forest.Operation) (operations : List Operation) :
    (Forest.Operation.run growth .empty).Addressed ∧
      (Operation.run operations .empty).graph.tags.Addressed := by
  have reachable : Reachable (Operation.run operations .empty) := reachable_run _
  exact ⟨(Forest.linked_empty.run growth).addressed, (Reached.listed reachable).linked.addressed⟩

/-- Three tags with one own name, two of them on one path. -/
example :
    let forest := Forest.Operation.run [.tagOrCreate "a.b" none, .tagOrCreate "c.b" none,
      .add (some ⟨3⟩) "b"] .empty
    forest.absoluteName ⟨4⟩ = "c.b.b" ∧ forest.candidates "b" = [⟨1⟩, ⟨3⟩, ⟨4⟩] ∧
      forest.candidates "b.b" = [⟨4⟩] ∧ forest.lookup? "c.b" = some ⟨3⟩ ∧
      forest.lookupBelow? ⟨3⟩ "b" = some ⟨4⟩ := by
  decide

end LifecycleGraph
