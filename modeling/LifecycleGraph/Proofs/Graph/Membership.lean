import LifecycleGraph.Proofs.Change
import LifecycleGraph.Proofs.Forest.Growth
import LifecycleGraph.Proofs.Graph.Index
import LifecycleGraph.Proofs.Graph.Schema
import LifecycleGraph.Graph.Assignment

/-!
# Nodes and their indices

A graph lists its nodes if the index of types, the index of names, the index of
states and the index of tags list exactly the nodes that are of the type, have
the name, are in the state or carry the tag.  Every change of a single node
keeps this.
-/

set_option autoImplicit false

namespace LifecycleGraph

/-- What the indices know of a node. -/
structure Node.Entry where
  name : String
  id : NodeId
  type : TypeId
  state : Option StateId
  tags : List TagId

/-- What of an entry never changes. -/
def Node.Entry.identity (entry : Node.Entry) : String × NodeId × TypeId :=
  (entry.name, entry.id, entry.type)

def Node.entry (node : Node) : Node.Entry :=
  ⟨node.name, node.id, node.type, node.state, node.tags⟩

namespace Graph

def entryOf? (graph : Graph) (id : NodeId) : Option Node.Entry := (graph.node? id).map Node.entry

/-- The indices list exactly the nodes that belong there. -/
structure Listed (graph : Graph) : Prop where
  schema : graph.Typed
  linked : graph.tags.Linked
  rows : graph.typeMembers.length = graph.types.size
  stamped : ∀ {id entry}, graph.entryOf? id = some entry →
    entry.id = id ∧ entry.type.index < graph.types.size
  typed : ∀ {type members}, graph.membersOfType? type = some members → ∀ id,
    id ∈ members.order.members ↔ ∃ entry, graph.entryOf? id = some entry ∧ entry.type = type
  named : ∀ {type members}, graph.membersOfType? type = some members → ∀ name id,
    members.byName.find? name = some id ↔
      ∃ entry, graph.entryOf? id = some entry ∧ entry.type = type ∧ entry.name = name
  typeOrder : ∀ {type members}, graph.membersOfType? type = some members → members.order.Sorted
  inState : ∀ state id, graph.stateMembers.hasMember state id = true ↔
    ∃ entry, graph.entryOf? id = some entry ∧ entry.state = some state
  stateOrder : graph.stateMembers.Ascends
  tagged : ∀ tag id, graph.tagMembers.hasMember tag id = true ↔
    ∃ entry, graph.entryOf? id = some entry ∧ tag ∈ entry.tags
  tagOrder : graph.tagMembers.Ascends
  carried : ∀ {id entry tag}, graph.entryOf? id = some entry → tag ∈ entry.tags →
    graph.tags.contains tag = true

variable {graph : Graph}

theorem entryOf?_of_node? {id : NodeId} {node : Node} (found : graph.node? id = some node) :
    graph.entryOf? id = some node.entry := by
  rw [entryOf?, found, Option.map_some]

theorem node?_of_entryOf? {id : NodeId} {entry : Node.Entry}
    (found : graph.entryOf? id = some entry) :
    ∃ node, graph.node? id = some node ∧ node.entry = entry :=
  Option.map_eq_some_iff.mp found

theorem node?_adjustNode (graph : Graph) (id other : NodeId) (change : Node → Node) :
    (graph.adjustNode id change).node? other =
      if other = id then (graph.node? other).map change else graph.node? other := by
  obtain ⟨index⟩ := id
  obtain ⟨otherIndex⟩ := other
  simp only [node?, adjustNode, Arena.find?_modify, NodeId.mk.injEq]

/-- Some nodes, each changed. -/
def adjustAll (change : Node → Node) (ids : List NodeId) (graph : Graph) : Graph :=
  ids.foldl (fun graph id => graph.adjustNode id change) graph

theorem node?_adjustAll {ids : List NodeId} (nodup : ids.Nodup) (change : Node → Node)
    (graph : Graph) (other : NodeId) :
    (adjustAll change ids graph).node? other =
      if other ∈ ids then (graph.node? other).map change else graph.node? other := by
  rw [adjustAll]
  induction ids generalizing graph with
  | nil => simp
  | cons id rest inductionHypothesis =>
      obtain ⟨notInRest, restNodup⟩ := List.nodup_cons.mp nodup
      rw [List.foldl_cons, inductionHypothesis restNodup, node?_adjustNode]
      by_cases same : other = id
      · subst same
        simp [notInRest]
      · simp [same]

theorem adjustAll_frame (change : Node → Node) (ids : List NodeId) (graph : Graph) :
    adjustAll change ids graph = { graph with nodes := (adjustAll change ids graph).nodes } := by
  rw [adjustAll]
  induction ids generalizing graph with
  | nil => rfl
  | cons id rest inductionHypothesis => exact inductionHypothesis (graph.adjustNode id change)

theorem nodeOrFault_eq_ok_iff (id : NodeId) (node : Node) :
    graph.nodeOrFault id = .ok node ↔ graph.node? id = some node := by
  rw [nodeOrFault]
  cases graph.node? id with
  | none => simp
  | some other => simp

/-- A change that asks for a node goes on with it, unless it is not there. -/
theorem leads_nodeOrFault_bind {α : Type} {id : NodeId} {next : Node → Change Graph α}
    {post : α → Graph → Prop} {stopped : Graph → Prop}
    (gone : graph.node? id = none → stopped graph)
    (onwards : ∀ node, graph.node? id = some node → (next node).Leads graph post stopped) :
    ((Change.ask (·.nodeOrFault id) : Change Graph Node) >>= next).Leads graph post stopped := by
  refine Change.leads_ask_bind
    (fun node isNode => onwards node ((nodeOrFault_eq_ok_iff id node).mp isNode))
    fun fault refused => ?_
  cases found : graph.node? id with
  | none => exact gone found
  | some node =>
      rw [(nodeOrFault_eq_ok_iff id node).mpr found] at refused
      cases refused

namespace Listed

theorem id_eq (listed : graph.Listed) {id : NodeId} {node : Node}
    (found : graph.node? id = some node) : node.id = id :=
  (listed.stamped (entryOf?_of_node? found)).1

theorem type_lt (listed : graph.Listed) {id : NodeId} {node : Node}
    (found : graph.node? id = some node) : node.type.index < graph.types.size :=
  (listed.stamped (entryOf?_of_node? found)).2

theorem inState_iff (listed : graph.Listed) {id : NodeId} {node : Node}
    (found : graph.node? id = some node) (state : StateId) :
    graph.stateMembers.hasMember state id = true ↔ node.state = some state := by
  rw [listed.inState state id, entryOf?_of_node? found]
  simp [Node.entry]

theorem tagged_iff (listed : graph.Listed) {id : NodeId} {node : Node}
    (found : graph.node? id = some node) (tag : TagId) :
    graph.tagMembers.hasMember tag id = true ↔ tag ∈ node.tags := by
  rw [listed.tagged tag id, entryOf?_of_node? found]
  simp [Node.entry]

theorem membersOfType? (listed : graph.Listed) {type : TypeId}
    (below : type.index < graph.types.size) :
    ∃ members, graph.membersOfType? type = some members := by
  rw [← listed.rows] at below
  exact ⟨_, List.getElem?_eq_getElem below⟩

/-! ## The same nodes, listed anew -/

/-- A graph with the same nodes under the same names and types is listed when its
indices of states and tags are right. -/
theorem relist {new : Graph} (listed : graph.Listed) (linked : new.tags.Linked)
    (rows : new.typeMembers = graph.typeMembers) (types : new.types = graph.types)
    (identities : ∀ id, (new.entryOf? id).map Node.Entry.identity =
      (graph.entryOf? id).map Node.Entry.identity)
    (inState : ∀ state id, new.stateMembers.hasMember state id = true ↔
      ∃ entry, new.entryOf? id = some entry ∧ entry.state = some state)
    (stateOrder : new.stateMembers.Ascends)
    (tagged : ∀ tag id, new.tagMembers.hasMember tag id = true ↔
      ∃ entry, new.entryOf? id = some entry ∧ tag ∈ entry.tags)
    (tagOrder : new.tagMembers.Ascends)
    (carried : ∀ {id entry tag}, new.entryOf? id = some entry → tag ∈ entry.tags →
      new.tags.contains tag = true) : new.Listed := by
  have known {id : NodeId} {entry : Node.Entry} (found : new.entryOf? id = some entry) :
      ∃ old, graph.entryOf? id = some old ∧ old.identity = entry.identity := by
    have same := identities id
    rw [found, Option.map_some] at same
    exact Option.map_eq_some_iff.mp same.symm
  have kept {id : NodeId} {entry : Node.Entry} (found : graph.entryOf? id = some entry) :
      ∃ other, new.entryOf? id = some other ∧ other.identity = entry.identity := by
    have same := identities id
    rw [found, Option.map_some] at same
    exact Option.map_eq_some_iff.mp same
  have transferred (id : NodeId) (holds : String × NodeId × TypeId → Prop) :
      (∃ entry, new.entryOf? id = some entry ∧ holds entry.identity) ↔
        ∃ entry, graph.entryOf? id = some entry ∧ holds entry.identity := by
    constructor
    · intro given
      obtain ⟨entry, found, isSo⟩ := given
      obtain ⟨old, isOld, same⟩ := known found
      exact ⟨old, isOld, same ▸ isSo⟩
    · intro given
      obtain ⟨entry, found, isSo⟩ := given
      obtain ⟨other, isNew, same⟩ := kept found
      exact ⟨other, isNew, same ▸ isSo⟩
  have members (type : TypeId) : new.membersOfType? type = graph.membersOfType? type := by
    rw [Graph.membersOfType?, rows, Graph.membersOfType?]
  refine {
    linked, inState, stateOrder, tagged, tagOrder, carried
    schema := listed.schema.of_types types
    rows := by rw [rows, types, listed.rows]
    stamped := ?_
    typed := ?_
    named := ?_
    typeOrder := ?_ }
  · intro id entry found
    obtain ⟨old, isOld, same⟩ := known found
    simp only [Node.Entry.identity, Prod.mk.injEq] at same
    obtain ⟨-, ids, ofType⟩ := same
    have stamp := listed.stamped isOld
    rw [← ids, ← ofType, types]
    exact stamp
  · intro type found isMembers id
    rw [members] at isMembers
    rw [listed.typed isMembers id]
    exact (transferred id fun identity => identity.2.2 = type).symm
  · intro type found isMembers name id
    rw [members] at isMembers
    rw [listed.named isMembers name id]
    exact (transferred id fun identity => identity.2.2 = type ∧ identity.1 = name).symm
  · intro type found isMembers
    rw [members] at isMembers
    exact listed.typeOrder isMembers

/-- One node is changed, and the indices of states and tags follow it. -/
theorem adjust (listed : graph.Listed) {id : NodeId} {node : Node} {change : Node → Node}
    (states : Table StateId (Ascending NodeId)) (members : Table TagId (Ascending NodeId))
    (found : graph.node? id = some node)
    (identity : (change node).entry.identity = node.entry.identity)
    (inState : ∀ state other, states.hasMember state other = true ↔
      if other = id then (change node).state = some state
      else graph.stateMembers.hasMember state other = true)
    (stateOrder : states.Ascends)
    (tagged : ∀ tag other, members.hasMember tag other = true ↔
      if other = id then tag ∈ (change node).tags
      else graph.tagMembers.hasMember tag other = true)
    (tagOrder : members.Ascends)
    (carried : ∀ tag ∈ (change node).tags, graph.tags.contains tag = true) :
    { graph.adjustNode id change with stateMembers := states, tagMembers := members }.Listed := by
  have entries (other : NodeId) :
      Graph.entryOf?
          { graph.adjustNode id change with stateMembers := states, tagMembers := members } other =
        if other = id then some (change node).entry else graph.entryOf? other := by
    have adjusted : Graph.entryOf?
        { graph.adjustNode id change with stateMembers := states, tagMembers := members } other =
          ((graph.adjustNode id change).node? other).map Node.entry := rfl
    rw [adjusted, node?_adjustNode]
    split
    · rename_i same
      rw [same, found, Option.map_some, Option.map_some]
    · rfl
  refine listed.relist listed.linked rfl rfl ?_ ?_ stateOrder ?_ tagOrder ?_
  · intro other
    rw [entries]
    split
    · rename_i same
      rw [same, entryOf?_of_node? found, Option.map_some, Option.map_some, identity]
    · rfl
  · intro state other
    rw [inState, entries]
    split
    · simp [Node.entry]
    · exact listed.inState state other
  · intro tag other
    rw [tagged, entries]
    split
    · simp [Node.entry]
    · exact listed.tagged tag other
  · intro other entry tag isEntry member
    rw [entries] at isEntry
    split at isEntry
    · cases isEntry
      exact carried tag member
    · exact listed.carried isEntry member

/-- A change of a node that its entry does not show. -/
theorem adjustContent (listed : graph.Listed) (id : NodeId) {change : Node → Node}
    (hidden : ∀ node, (change node).entry = node.entry) : (graph.adjustNode id change).Listed := by
  cases found : graph.node? id with
  | none =>
      have entries (other : NodeId) :
          (graph.adjustNode id change).entryOf? other = graph.entryOf? other := by
        rw [entryOf?, entryOf?, node?_adjustNode]
        split
        · rename_i same
          rw [same, found, Option.map_none]
        · rfl
      refine listed.relist listed.linked rfl rfl (fun other => by rw [entries]) ?_
        listed.stateOrder ?_ listed.tagOrder ?_
      · intro state other
        rw [entries]
        exact listed.inState state other
      · intro tag other
        rw [entries]
        exact listed.tagged tag other
      · intro other entry tag isEntry
        rw [entries] at isEntry
        exact listed.carried isEntry
  | some node =>
      have same := hidden node
      simp only [Node.entry, Node.Entry.mk.injEq] at same
      obtain ⟨names, ids, types, states, tags⟩ := same
      refine listed.adjust _ _ found (by rw [hidden]) ?_ listed.stateOrder ?_ listed.tagOrder ?_
      · intro state other
        split
        · rename_i isIt
          rw [isIt, states]
          exact listed.inState_iff found state
        · rfl
      · intro tag other
        split
        · rename_i isIt
          rw [isIt, tags]
          exact listed.tagged_iff found tag
        · rfl
      · intro tag member
        rw [tags] at member
        exact listed.carried (entryOf?_of_node? found) member

theorem adjustAllContent (listed : graph.Listed) (ids : List NodeId) (change : Node → Node)
    (hidden : ∀ node, (change node).entry = node.entry) : (adjustAll change ids graph).Listed := by
  rw [adjustAll]
  induction ids generalizing graph with
  | nil => exact listed
  | cons id rest inductionHypothesis => exact inductionHypothesis (listed.adjustContent id hidden)

/-- The forest may grow, and states may be declared. -/
theorem regrown (listed : graph.Listed) {tags : Forest}
    (grown : Forest.LinkedFrom graph.tags tags) (states : Roster State Unit) :
    { graph with tags, states }.Listed :=
  listed.relist grown.1 rfl rfl (fun _ => rfl) listed.inState listed.stateOrder listed.tagged
    listed.tagOrder fun found member => grown.2.contains (listed.carried found member)

end Listed

/-! ## Tags of a node -/

theorem keeps_pushTag (id : NodeId) (tag : TagId) : (pushTag id tag).Keeps Listed := by
  intro graph listed
  rw [pushTag, Change.leads_ofFunction]
  by_cases present : graph.tags.contains tag = true
  · simp only [present, Bool.not_true, Bool.false_eq_true, if_false]
    cases found : graph.node? id with
    | none => exact listed
    | some node =>
        refine listed.adjust graph.stateMembers _ found rfl ?_ listed.stateOrder ?_
          (listed.tagOrder.addMember tag id) ?_
        · intro state other
          split
          · rename_i same
            rw [same]
            exact listed.inState_iff found state
          · rfl
        · intro held other
          rw [Table.hasMember_addMember]
          split
          · rename_i same
            rw [same, listed.tagged_iff found, List.mem_append, List.mem_singleton,
              eq_comm (a := tag)]
            simp
          · rename_i different
            simp [different]
        · intro held member
          rcases List.mem_append.mp member with old | new
          · exact listed.carried (entryOf?_of_node? found) old
          · rw [List.mem_singleton.mp new]
            exact present
  · have gone : graph.tags.contains tag = false := by simpa using present
    simp only [gone, Bool.not_false, if_true]
    exact listed

theorem keeps_addTag (id : NodeId) (tag : TagId) : (addTag id tag).Keeps Listed := by
  rw [addTag]
  refine (Change.keeps_ask _).bind fun node => ?_
  split
  · exact Change.keeps_pure _
  · exact keeps_pushTag id tag

theorem Listed.dropTag (listed : graph.Listed) {id : NodeId} {node : Node}
    (found : graph.node? id = some node) (tag : TagId) : (graph.dropTag node tag).Listed := by
  have stamp := listed.id_eq found
  rw [Graph.dropTag, stamp]
  refine listed.adjust graph.stateMembers _ found rfl ?_ listed.stateOrder ?_ ?_ ?_
  · intro state other
    split
    · rename_i same
      rw [same]
      exact listed.inState_iff found state
    · rfl
  · intro held other
    simp only [List.contains_iff_mem]
    split
    · rename_i again
      split
      · rename_i same
        rw [same, listed.tagged_iff found]
        by_cases isTag : held = tag
        · subst isTag
          exact iff_of_true (List.mem_of_mem_erase again) again
        · exact (List.mem_erase_of_ne isTag).symm
      · rfl
    · rename_i last
      rw [Table.hasMember_dropMember]
      split
      · rename_i same
        rw [same, listed.tagged_iff found]
        by_cases isTag : held = tag
        · subst isTag
          simp [last]
        · rw [List.mem_erase_of_ne isTag]
          simp [eq_comm (a := tag), isTag]
      · rename_i different
        simp [different]
  · split
    · exact listed.tagOrder
    · exact listed.tagOrder.dropMember tag id
  · intro held member
    exact listed.carried (entryOf?_of_node? found) (List.mem_of_mem_erase member)

theorem keeps_removeTag (id : NodeId) (tag : TagId) : (removeTag id tag).Keeps Listed := by
  intro graph listed
  rw [removeTag, Change.leads_ofFunction]
  cases found : graph.node? id with
  | none => exact listed
  | some node =>
      simp only
      by_cases held : node.tags.contains tag = true
      · simp only [held, if_true]
        exact listed.dropTag found tag
      · simp only [held, Bool.false_eq_true, if_false]
        exact listed

/-! ## States -/

theorem hasMember_moveMember (members : Table StateId (Ascending NodeId)) (id : NodeId)
    (source target : Option StateId) (state : StateId) (other : NodeId) :
    (moveMember members id source target).hasMember state other = true ↔
      members.hasMember state other = true ∧ ¬ (source = some state ∧ other = id) ∨
        target = some state ∧ other = id := by
  cases source <;> cases target <;>
    simp [moveMember, Table.hasMember_addMember, Table.hasMember_dropMember]

theorem ascends_moveMember {members : Table StateId (Ascending NodeId)}
    (ascends : members.Ascends) (id : NodeId) (source target : Option StateId) :
    (moveMember members id source target).Ascends := by
  cases source with
  | none =>
      cases target with
      | none => exact ascends
      | some target => exact ascends.addMember target id
  | some source =>
      cases target with
      | none => exact ascends.dropMember source id
      | some target => exact (ascends.dropMember source id).addMember target id

theorem keeps_setState (id : NodeId) (state : Option StateId) :
    (setState id state).Keeps Listed := by
  intro graph listed
  rw [setState, Change.leads_ofFunction]
  cases state.filter fun target => (graph.state? target).isNone with
  | some missing => exact listed
  | none =>
      simp only
      cases found : graph.node? id with
      | none => exact listed
      | some node =>
          simp only
          by_cases already : node.state = state
          · simp only [already, if_true]
            exact listed
          · simp only [already, if_false]
            refine listed.adjust _ graph.tagMembers found rfl ?_
              (ascends_moveMember listed.stateOrder id node.state state) ?_ listed.tagOrder ?_
            · intro target other
              rw [hasMember_moveMember]
              split
              · rename_i same
                rw [same, listed.inState_iff found]
                simp
              · rename_i different
                simp [different]
            · intro tag other
              split
              · rename_i same
                rw [same]
                exact listed.tagged_iff found tag
              · rfl
            · intro tag member
              exact listed.carried (entryOf?_of_node? found) member

end Graph

end LifecycleGraph
