import Mathlib.Data.Option.Basic
import LifecycleGraph.Graph.Integrity
import LifecycleGraph.Proofs.Graph.Covering
import LifecycleGraph.Proofs.Repository.Naming

/-!
# What the check of integrity finds

The indices list what nodes carry in every repository that is reached, so the check only
depends on values and references: each value is one of a declared property and is backed,
by the referrers of the nodes in it or by the flat list of its node, and each referrer
holds what it is listed for.  A sound graph in which every tag of a value is in the flat
list of its node passes the check.
-/

set_option autoImplicit false

namespace LifecycleGraph

namespace Graph

variable {graph : Graph}

/-- Beside a value stands what its property asks for: the nodes in it know its holder, and the
tags in it are in the flat list. -/
structure Backed (graph : Graph) (holder : NodeId) (node : Node) (declared : Property)
    (value : Value) : Prop where
  nodes : declared.isNode = true →
    ∀ target ∈ value.nodes, graph.refersBack target declared.id holder = true
  tags : declared.isTag = true → ∀ tag ∈ value.tags, tag ∈ node.tags

/-- Every value is backed, and every referrer refers. -/
structure Intact (graph : Graph) : Prop where
  held : ∀ {id node property value}, graph.node? id = some node →
    node.value? property = some value →
      ∃ declared, graph.property? property = some declared ∧ graph.Backed id node declared value
  referred : ∀ {target property source}, graph.refersBack target property source = true →
    ∃ value, graph.valueAt? source property = some value ∧ target ∈ value.nodes

/-- In an intact graph the tags that a node holds are in its flat list. -/
theorem Intact.mem_tags (intact : graph.Intact) {id : NodeId} {node : Node}
    (found : graph.node? id = some node) {tag : TagId} (holds : graph.HoldsTag node tag) :
    tag ∈ node.tags := by
  obtain ⟨property, declared, value, isDeclared, isTag, isValue, member⟩ := holds
  obtain ⟨again, isAgain, backed⟩ := intact.held found isValue
  obtain rfl := Option.some.inj (isDeclared.symm.trans isAgain)
  exact backed.tags isTag tag member

theorem Typed.id_of_property? (typed : graph.Typed) {id : PropertyId} {property : Property}
    (found : graph.property? id = some property) : property.id = id := by
  obtain ⟨type, isType, atSlot⟩ := Option.bind_eq_some_iff.mp found
  exact typed.entered isType atSlot

/-! ## The faults of a node -/

section Node

variable (listed : graph.Listed) {id : NodeId} {node : Node} (found : graph.node? id = some node)

include listed found

theorem referenceFault?_eq_none_iff (declared : Property) (target : NodeId) :
    graph.referenceFault? node declared target = none ↔
      graph.refersBack target declared.id id = true := by
  rw [referenceFault?, listed.id_eq found, ← refersBack, ite_eq_left_iff]
  simp

omit listed found in
theorem listingFault?_eq_none_iff (declared : Property) (tag : TagId) :
    graph.listingFault? node declared tag = none ↔ tag ∈ node.tags := by
  rw [listingFault?, ite_eq_left_iff]
  simp

theorem valueFault?_eq_none_iff (property : PropertyId) (value : Value) :
    graph.valueFault? node property value = none ↔
      ∃ declared, graph.property? property = some declared ∧
        graph.Backed id node declared value := by
  cases isDeclared : graph.property? property with
  | none => simp [valueFault?, isDeclared]
  | some declared =>
      simp only [valueFault?, isDeclared, Option.some.injEq, exists_eq_left']
      by_cases isNode : declared.isNode = true
      · have notTag : declared.isTag = false := Property.isTag_eq_false isNode
        rw [if_pos isNode, List.findSome?_eq_none_iff]
        simp only [referenceFault?_eq_none_iff listed found]
        exact ⟨fun known => ⟨fun _ => known, fun isTag => by rw [notTag] at isTag; cases isTag⟩,
          fun backed => backed.nodes isNode⟩
      · rw [if_neg isNode]
        by_cases isTag : declared.isTag = true
        · rw [if_pos isTag, List.findSome?_eq_none_iff]
          simp only [listingFault?_eq_none_iff]
          exact ⟨fun given => ⟨fun isNode' => absurd isNode' isNode, fun _ => given⟩,
            fun backed => backed.tags isTag⟩
        · rw [if_neg isTag]
          exact iff_of_true rfl
            ⟨fun isNode' => absurd isNode' isNode, fun isTag' => absurd isTag' isTag⟩

theorem referrerFault?_eq_none_iff (property : PropertyId) (referrer : NodeId) :
    graph.referrerFault? node property referrer = none ↔
      ∃ value, graph.valueAt? referrer property = some value ∧ id ∈ value.nodes := by
  rw [referrerFault?, listed.id_eq found, ← valueAt?, ite_eq_left_iff]
  simp [Option.any_eq_true]

/-- The flat list and the state of a node are where the indices say. -/
theorem nodeFault?_eq_none_iff (kempt : node.Kempt) :
    graph.nodeFault? node = none ↔
      (∀ property value, node.value? property = some value →
        graph.valueFault? node property value = none) ∧
      ∀ property referrer, node.referrers.hasMember property referrer = true →
        graph.referrerFault? node property referrer = none := by
  have tagged : (node.tags.findSome? fun tag =>
      if graph.tagMembers.hasMember tag node.id then none
      else some (.tagNotIndexed (graph.label node.id) (graph.tags.absoluteName tag))) =
        (none : Option IntegrityFault) := by
    refine List.findSome?_eq_none_iff.mpr fun tag member => if_pos ?_
    rw [listed.id_eq found]
    exact (listed.tagged_iff found tag).mpr member
  simp only [nodeFault?, Option.orElse_eq_none, List.findSome?_eq_none_iff, Prod.forall,
    kempt.properties.mem_entries_iff, kempt.referrers.mem_entries_iff, tagged]
  refine and_congr Iff.rfl ⟨fun faults property referrer isReferrer => ?_, fun faults => ?_⟩
  · obtain ⟨referrers, isEntry, member⟩ := (Table.hasMember_iff property referrer).mp isReferrer
    exact faults.1 property referrers isEntry referrer member
  · refine ⟨fun property referrers isEntry referrer member => ?_, trivial, ?_⟩
    · exact faults property referrer
        ((Table.hasMember_iff property referrer).mpr ⟨referrers, isEntry, member⟩)
    · split
      · rename_i state inState
        refine if_pos ?_
        rw [listed.id_eq found]
        exact (listed.inState_iff found state).mpr inState
      · rfl

end Node

/-! ## The indices -/

theorem tagIndexFault?_eq_none (listed : graph.Listed) {tag : TagId} {id : NodeId}
    (isMember : graph.tagMembers.hasMember tag id = true) : graph.tagIndexFault? tag id = none := by
  obtain ⟨entry, isEntry, carried⟩ := (listed.tagged tag id).mp isMember
  obtain ⟨node, found, rfl⟩ := node?_of_entryOf? isEntry
  rw [tagIndexFault?, found, Option.any_some]
  exact if_pos (List.contains_iff_mem.mpr carried)

theorem stateIndexFault?_eq_none (listed : graph.Listed) {state : StateId} {id : NodeId}
    (isMember : graph.stateMembers.hasMember state id = true) :
    graph.stateIndexFault? state id = none := by
  obtain ⟨entry, isEntry, inState⟩ := (listed.inState state id).mp isMember
  obtain ⟨node, found, rfl⟩ := node?_of_entryOf? isEntry
  rw [stateIndexFault?, found, Option.bind_some]
  exact if_pos inState

/-- Nothing is wrong with the indices, so only the nodes can fail the check. -/
theorem checkIntegrity_eq_ok_iff_nodes (listed : graph.Listed) (ordered : graph.Ordered) :
    graph.checkIntegrity = .ok () ↔
      ∀ id node, graph.node? id = some node → graph.nodeFault? node = none := by
  have tags : ∀ entry ∈ graph.tagMembers.entries, ∀ id ∈ entry.2.members,
      graph.tagIndexFault? entry.1 id = none := by
    refine fun entry member id isMember => tagIndexFault?_eq_none listed ?_
    exact (Table.hasMember_iff entry.1 id).mpr
      ⟨entry.2, (ordered.tags.mem_entries_iff entry.1 entry.2).mp member, isMember⟩
  have states : ∀ entry ∈ graph.stateMembers.entries, ∀ id ∈ entry.2.members,
      graph.stateIndexFault? entry.1 id = none := by
    refine fun entry member id isMember => stateIndexFault?_eq_none listed ?_
    exact (Table.hasMember_iff entry.1 id).mpr
      ⟨entry.2, (ordered.states.mem_entries_iff entry.1 entry.2).mp member, isMember⟩
  have noFault : graph.checkIntegrity = .ok () ↔ graph.integrityFault? = none := by
    rw [checkIntegrity]
    cases graph.integrityFault? <;> simp
  rw [noFault]
  simp only [integrityFault?, Option.orElse_eq_none, List.findSome?_eq_none_iff]
  constructor
  · intro faults id node found
    exact faults.1 node ((graph.nodes.mem_values_iff node).mpr ⟨id.index, found⟩)
  · intro faults
    refine ⟨fun node member => ?_, tags, states⟩
    obtain ⟨index, found⟩ := (graph.nodes.mem_values_iff node).mp member
    exact faults ⟨index⟩ node found

/-! ## The whole check -/

/-- A graph passes the check exactly if it is intact. -/
theorem checkIntegrity_eq_ok_iff (listed : graph.Listed) (ordered : graph.Ordered)
    (kempt : ∀ id node, graph.node? id = some node → node.Kempt) :
    graph.checkIntegrity = .ok () ↔ graph.Intact := by
  have back {target : NodeId} {node : Node} (found : graph.node? target = some node)
      (property : PropertyId) (source : NodeId) :
      graph.refersBack target property source = node.referrers.hasMember property source := by
    rw [refersBack, found, Option.any_some]
  rw [checkIntegrity_eq_ok_iff_nodes listed ordered]
  constructor
  · refine fun faults => ⟨fun found isValue => ?_, fun refers => ?_⟩
    · have own := (nodeFault?_eq_none_iff listed found (kempt _ _ found)).mp (faults _ _ found)
      exact (valueFault?_eq_none_iff listed found _ _).mp (own.1 _ _ isValue)
    · obtain ⟨node, found, isReferrer⟩ := (Option.any_eq_true _ _).mp refers
      have own := (nodeFault?_eq_none_iff listed found (kempt _ _ found)).mp (faults _ _ found)
      exact (referrerFault?_eq_none_iff listed found _ _).mp (own.2 _ _ isReferrer)
  · intro intact id node found
    refine (nodeFault?_eq_none_iff listed found (kempt _ _ found)).mpr
      ⟨fun property value isValue => ?_, fun property referrer isReferrer => ?_⟩
    · exact (valueFault?_eq_none_iff listed found property value).mpr (intact.held found isValue)
    · rw [← back found] at isReferrer
      exact (referrerFault?_eq_none_iff listed found property referrer).mpr
        (intact.referred isReferrer)

theorem Covered.mem_tags (covered : graph.Covered) {id : NodeId} {node : Node}
    (sorted : node.properties.Sorted) (found : graph.node? id = some node) {property : PropertyId}
    {declared : Property} (isDeclared : graph.property? property = some declared)
    (isTag : declared.isTag = true) {value : Value} (isValue : node.value? property = some value)
    {tag : TagId} (member : tag ∈ value.tags) : tag ∈ node.tags := by
  have held := (mem_heldTags_iff graph sorted tag).mpr
    ⟨property, declared, value, isDeclared, isTag, isValue, member⟩
  have some := List.count_pos_iff.mpr held
  have covers := covered id node found tag
  exact List.count_pos_iff.mp (by omega)

theorem Sound.kempt (sound : graph.Sound) (id : NodeId) (node : Node)
    (found : graph.node? id = some node) : node.Kempt := by
  obtain ⟨properties, referrers⟩ := sound.referenced.sorted found
  refine ⟨properties, referrers, fun property value isValue => ?_⟩
  obtain ⟨_, -, items, -⟩ := sound.referenced.held
    ((valueAt?_of_node? found property).trans isValue)
  exact items

theorem Tallied.intact (tallied : graph.Tallied) : graph.Intact where
  held := by
    intro id node property value found isValue
    have atNode := (valueAt?_of_node? found property).trans isValue
    obtain ⟨declared, ⟨isDeclared, -⟩, -, -⟩ := tallied.sound.referenced.held atNode
    refine ⟨declared, isDeclared, fun isNode target member => ?_, fun isTag tag member => ?_⟩
    · rw [tallied.sound.listed.schema.id_of_property? isDeclared]
      exact (tallied.sound.referenced.mirrored target property id).mpr
        ⟨declared, value, isDeclared, isNode, atNode, member⟩
    · exact tallied.covered.mem_tags (tallied.sound.referenced.sorted found).1 found isDeclared
        isTag isValue member
  referred := by
    intro target property source refers
    obtain ⟨_, value, -, -, isValue, member⟩ :=
      (tallied.sound.referenced.mirrored target property source).mp refers
    exact ⟨value, isValue, member⟩

/-- A sound graph whose lists cover the values passes the check. -/
theorem checkIntegrity_eq_ok (tallied : graph.Tallied) (ordered : graph.Ordered) :
    graph.checkIntegrity = .ok () :=
  (checkIntegrity_eq_ok_iff tallied.sound.listed ordered tallied.sound.kempt).mpr tallied.intact

end Graph

theorem Reached.kempt {allowed : Repository → Operation → Prop} {repository : Repository}
    (reached : Reached allowed repository) (id : NodeId) (node : Node)
    (found : repository.graph.node? id = some node) : node.Kempt :=
  (reached.proper id node found).toKempt

theorem Reached.checkIntegrity_eq_ok_iff {allowed : Repository → Operation → Prop}
    {repository : Repository} (reached : Reached allowed repository) :
    repository.graph.checkIntegrity = .ok () ↔ repository.graph.Intact :=
  Graph.checkIntegrity_eq_ok_iff reached.listed reached.ordered reached.kempt

end LifecycleGraph
