import LifecycleGraph.Proofs.Forest.Removal
import LifecycleGraph.Proofs.Graph.Membership
import LifecycleGraph.Graph.Removal

/-!
# Nodes that come and go

Adding a node, setting its values, removing a node and removing a tag from all
nodes keep the indices in step.  A tag is removed in one go: the nodes that
carry it are found by the index, and nothing stops their change on the way.
-/

set_option autoImplicit false

namespace LifecycleGraph

namespace Graph

variable {graph : Graph}

/-! ## Adding a node -/

/-- The handle of the next node. -/
def nextId (graph : Graph) : NodeId := ⟨graph.nodes.next⟩

theorem node?_enroll (graph : Graph) (type : TypeId) (name : String) (id : NodeId) :
    (graph.enroll type name).node? id =
      if id = graph.nextId then some (.ofName graph.nextId type name) else graph.node? id := by
  obtain ⟨index⟩ := id
  simp only [enroll, node?, nextId, Arena.find?_push, NodeId.mk.injEq]

theorem node?_nextId (graph : Graph) : graph.node? graph.nextId = none :=
  Arena.find?_of_next_le (Nat.le_refl _)

theorem membersOfType?_enroll (graph : Graph) (type other : TypeId) (name : String) :
    (graph.enroll type name).membersOfType? other =
      if other = type then
        (graph.membersOfType? other).map fun members =>
          ⟨members.order.insert graph.nextId, members.byName.insert name graph.nextId⟩
      else graph.membersOfType? other := by
  obtain ⟨index⟩ := type
  obtain ⟨otherIndex⟩ := other
  simp only [enroll, membersOfType?, nextId, List.getElem?_modify, TypeId.mk.injEq]
  by_cases same : otherIndex = index
  · subst same
    cases graph.typeMembers[otherIndex]? <;> simp
  · cases graph.typeMembers[otherIndex]? <;> simp [same, Ne.symm same]

theorem entryOf?_enroll (graph : Graph) (type : TypeId) (name : String) (id : NodeId) :
    (graph.enroll type name).entryOf? id =
      if id = graph.nextId then some ⟨name, graph.nextId, type, none, []⟩
      else graph.entryOf? id := by
  rw [entryOf?, node?_enroll]
  split <;> rfl

/-- Whatever the new entry is not is so of the same nodes as before. -/
theorem exists_entryOf?_enroll (graph : Graph) (type : TypeId) (name : String) (id : NodeId)
    (holds : Node.Entry → Prop) (newFails : ¬ holds ⟨name, graph.nextId, type, none, []⟩) :
    (∃ entry, (graph.enroll type name).entryOf? id = some entry ∧ holds entry) ↔
      ∃ entry, graph.entryOf? id = some entry ∧ holds entry := by
  have absent : graph.entryOf? graph.nextId = none := by
    rw [entryOf?, node?_nextId, Option.map_none]
  rw [entryOf?_enroll]
  split
  · rename_i same
    subst same
    simp [newFails, absent]
  · rfl

namespace Listed

theorem typed_enroll (listed : graph.Listed) {type other : TypeId} {name : String}
    {members : TypeMembers}
    (found : (graph.enroll type name).membersOfType? other = some members) (id : NodeId) :
    id ∈ members.order.members ↔
      ∃ entry, (graph.enroll type name).entryOf? id = some entry ∧ entry.type = other := by
  rw [membersOfType?_enroll] at found
  split at found
  · rename_i same
    subst same
    obtain ⟨before, isBefore, rfl⟩ := Option.map_eq_some_iff.mp found
    rw [Ascending.mem_insert, listed.typed isBefore, entryOf?_enroll]
    split
    · rename_i isNew
      simp [isNew]
    · rename_i notNew
      simp [notNew]
  · rename_i different
    rw [listed.typed found]
    exact (exists_entryOf?_enroll graph type name id (fun entry => entry.type = other)
      fun same => different same.symm).symm

theorem named_enroll (listed : graph.Listed) {type other : TypeId} {name : String}
    (free : ∀ members, graph.membersOfType? type = some members →
      members.byName.find? name = none)
    {members : TypeMembers}
    (found : (graph.enroll type name).membersOfType? other = some members) (called : String)
    (id : NodeId) :
    members.byName.find? called = some id ↔
      ∃ entry, (graph.enroll type name).entryOf? id = some entry ∧ entry.type = other ∧
        entry.name = called := by
  rw [membersOfType?_enroll] at found
  split at found
  · rename_i same
    subst same
    obtain ⟨before, isBefore, rfl⟩ := Option.map_eq_some_iff.mp found
    rw [Table.find?_insert]
    split
    · rename_i isName
      subst isName
      -- The name was free, so that nobody but the new node is found under it.
      have nobody : ¬ ∃ entry, graph.entryOf? id = some entry ∧ entry.type = other ∧
          entry.name = name := by
        rw [← listed.named isBefore, free before isBefore]
        simp
      rw [entryOf?_enroll]
      split
      · rename_i isNew
        simp [isNew]
      · rename_i notNew
        refine iff_of_false (fun same => notNew ?_) nobody
        exact (Option.some.inj same).symm
    · rename_i otherName
      rw [listed.named isBefore]
      exact (exists_entryOf?_enroll graph other name id
        (fun entry => entry.type = other ∧ entry.name = called) fun both => otherName both.2).symm
  · rename_i different
    rw [listed.named found]
    exact (exists_entryOf?_enroll graph type name id
      (fun entry => entry.type = other ∧ entry.name = called)
      fun both => different both.1.symm).symm

theorem enroll (listed : graph.Listed) {type : TypeId} {name : String}
    (declared : type.index < graph.types.size)
    (free : ∀ members, graph.membersOfType? type = some members →
      members.byName.find? name = none) : (graph.enroll type name).Listed := by
  refine {
    schema := listed.schema.of_types rfl
    linked := listed.linked
    rows := (List.length_modify ..).trans listed.rows
    stamped := ?_
    typed := listed.typed_enroll
    named := listed.named_enroll free
    typeOrder := ?_
    inState := ?_
    stateOrder := listed.stateOrder
    tagged := ?_
    tagOrder := listed.tagOrder
    carried := ?_ }
  · intro id entry found
    rw [entryOf?_enroll] at found
    split at found
    · rename_i same
      cases found
      exact ⟨same.symm, declared⟩
    · exact listed.stamped found
  · intro other members found
    rw [membersOfType?_enroll] at found
    split at found
    · obtain ⟨before, isBefore, rfl⟩ := Option.map_eq_some_iff.mp found
      exact (listed.typeOrder isBefore).insert _
    · exact listed.typeOrder found
  · intro state id
    exact (listed.inState state id).trans (exists_entryOf?_enroll graph type name id
      (fun entry => entry.state = some state) (by simp)).symm
  · intro tag id
    exact (listed.tagged tag id).trans (exists_entryOf?_enroll graph type name id
      (fun entry => tag ∈ entry.tags) (by simp)).symm
  · intro id entry tag found member
    rw [entryOf?_enroll] at found
    split at found
    · cases found
      cases member
    · exact listed.carried found member

end Listed

/-- A new node is the next one; a node is only added under a name that is free. -/
theorem leads_addNode (type : TypeId) (name : String) (graph : Graph) :
    (addNode type name).Leads graph
      (fun id changed => id = graph.nextId ∧ changed = graph.enroll type name ∧
        validNodeName name = true ∧ type.index < graph.types.size ∧
        ∀ members, graph.membersOfType? type = some members → members.byName.find? name = none)
      (fun changed => changed = graph) := by
  rw [addNode, Change.leads_ofFunction]
  by_cases valid : validNodeName name = true
  · simp only [valid, Bool.not_true, Bool.false_eq_true, if_false]
    cases found : graph.type? type with
    | none => rfl
    | some declared =>
        simp only
        split
        · rename_i taken changed applied
          split at applied
          · cases applied
          · rename_i free
            cases applied
            refine ⟨rfl, rfl, trivial, lt_size_of_type? found, fun members isMembers => ?_⟩
            rw [isMembers] at free
            simpa [Table.contains] using free
        · rename_i fault changed applied
          split at applied
          · cases applied
            rfl
          · cases applied
  · have invalid : validNodeName name = false := by simpa using valid
    simp only [invalid, Bool.not_false, if_true]

theorem keeps_addNode (type : TypeId) (name : String) : (addNode type name).Keeps Listed := by
  intro graph listed
  refine (leads_addNode type name graph).imp ?_ ?_
  · intro id changed outcome
    obtain ⟨-, rfl, -, declared, free⟩ := outcome
    exact listed.enroll declared free
  · intro changed same
    obtain rfl := same
    exact listed

/-! ## Setting a value -/

/-- What a new value of a property changes besides the value. -/
def follow (id : NodeId) (property : PropertyId) (declared : Property) (old new : Value) :
    Change Graph Unit :=
  if declared.isNode then modify (·.relink id property old new)
  else if declared.isTag then retag id old new
  else pure ()

theorem setProperty_eq (id : NodeId) (property : PropertyId) (value : Value) :
    setProperty id property value =
      (Change.ask (·.declaration id property) >>= fun (declared, node) =>
        Change.ask (·.validate declared value) >>= fun value =>
          follow id property declared ((node.value? property).getD .null) value >>= fun _ =>
            modify (·.adjustNode id (hold property value))) := by
  rw [setProperty]
  refine congrArg _ (funext fun (declared, node) => ?_)
  simp only
  refine congrArg _ (funext fun value => ?_)
  rw [follow]
  by_cases isNode : declared.isNode = true
  · simp only [isNode, if_true]
  · by_cases isTag : declared.isTag = true
    · simp only [isNode, isTag, Bool.false_eq_true, if_false, if_true]
    · simp only [isNode, isTag, Bool.false_eq_true, if_false]
      rfl

/-- A node among the referrers of another one no longer. -/
def withoutReferrer (id : NodeId) (property : PropertyId) (node : Node) : Node :=
  { node with referrers := node.referrers.dropMember property id }

def withReferrer (id : NodeId) (property : PropertyId) (node : Node) : Node :=
  { node with referrers := node.referrers.addMember property id }

theorem relink_eq (graph : Graph) (id : NodeId) (property : PropertyId) (old new : Value) :
    graph.relink id property old new =
      adjustAll (withReferrer id property)
        ((Ascending.ofList new.nodes).difference (Ascending.ofList old.nodes)).members
        (adjustAll (withoutReferrer id property)
          ((Ascending.ofList old.nodes).difference (Ascending.ofList new.nodes)).members graph) :=
  rfl

theorem Listed.relink (listed : graph.Listed) (id : NodeId) (property : PropertyId)
    (old new : Value) : (graph.relink id property old new).Listed := by
  rw [relink_eq]
  have unlinked := listed.adjustAllContent
    ((Ascending.ofList old.nodes).difference (Ascending.ofList new.nodes)).members
    (withoutReferrer id property) fun _ => rfl
  exact unlinked.adjustAllContent _ (withReferrer id property) fun _ => rfl

theorem keeps_retag (id : NodeId) (old new : Value) : (retag id old new).Keeps Listed := by
  rw [retag]
  refine Change.Keeps.bind (Change.keeps_forEach fun tag => ?_) fun _ =>
    Change.keeps_forEach fun tag => keeps_pushTag id tag
  exact (keeps_removeTag id tag).answerless

theorem keeps_setProperty (id : NodeId) (property : PropertyId) (value : Value) :
    (setProperty id property value).Keeps Listed := by
  rw [setProperty_eq]
  refine (Change.keeps_ask _).bind fun (declared, node) => (Change.keeps_ask _).bind fun value => ?_
  refine Change.Keeps.bind ?_ fun _ => Change.keeps_modify fun graph listed => ?_
  · rw [follow]
    split
    · exact Change.keeps_modify fun graph listed => listed.relink id property _ value
    · split
      · exact keeps_retag id _ value
      · exact Change.keeps_pure _
  · exact listed.adjustContent id fun _ => rfl

/-! ## Removing a node -/

theorem node?_discard (graph : Graph) (node : Node) (id : NodeId) :
    (graph.discard node).node? id = if id = node.id then none else graph.node? id := by
  obtain ⟨index⟩ := id
  obtain ⟨nodeIndex, isIndex⟩ : ∃ index, node.id = ⟨index⟩ := ⟨node.id.index, rfl⟩
  simp only [discard, node?, Arena.find?_erase, isIndex, NodeId.mk.injEq]

theorem membersOfType?_discard (graph : Graph) (node : Node) (type : TypeId) :
    (graph.discard node).membersOfType? type =
      if type = node.type then
        (graph.membersOfType? type).map fun members =>
          ⟨members.order.erase node.id, members.byName.erase node.name⟩
      else graph.membersOfType? type := by
  obtain ⟨index⟩ := type
  obtain ⟨nodeIndex, isIndex⟩ : ∃ index, node.type = ⟨index⟩ := ⟨node.type.index, rfl⟩
  simp only [discard, membersOfType?, List.getElem?_modify, isIndex, TypeId.mk.injEq]
  by_cases same : index = nodeIndex
  · subst same
    cases graph.typeMembers[index]? <;> simp
  · cases graph.typeMembers[index]? <;> simp [same, Ne.symm same]

theorem entryOf?_discard (graph : Graph) (node : Node) (id : NodeId) :
    (graph.discard node).entryOf? id = if id = node.id then none else graph.entryOf? id := by
  rw [entryOf?, node?_discard]
  split <;> rfl

theorem exists_entryOf?_discard (graph : Graph) (node : Node) (id : NodeId)
    (holds : Node.Entry → Prop) :
    (∃ entry, (graph.discard node).entryOf? id = some entry ∧ holds entry) ↔
      (∃ entry, graph.entryOf? id = some entry ∧ holds entry) ∧ id ≠ node.id := by
  rw [entryOf?_discard]
  by_cases same : id = node.id <;> simp [same]

theorem hasMember_stateMembers_discard (graph : Graph) (node : Node) (state : StateId)
    (id : NodeId) :
    (graph.discard node).stateMembers.hasMember state id = true ↔
      graph.stateMembers.hasMember state id = true ∧
        ¬ (node.state = some state ∧ id = node.id) := by
  rw [Graph.discard]
  cases inState : node.state with
  | none => simp
  | some held =>
      simp only
      rw [Table.hasMember_dropMember]
      simp

theorem hasMember_tagMembers_discard (graph : Graph) (node : Node) (tag : TagId) (id : NodeId) :
    (graph.discard node).tagMembers.hasMember tag id = true ↔
      graph.tagMembers.hasMember tag id = true ∧ ¬ (tag ∈ node.tags ∧ id = node.id) :=
  Table.hasMember_dropAll node.tags tag node.id id

theorem ascends_stateMembers_discard (ascends : graph.stateMembers.Ascends) (node : Node) :
    (graph.discard node).stateMembers.Ascends := by
  rw [Graph.discard]
  cases node.state with
  | none => exact ascends
  | some held => exact ascends.dropMember held node.id

namespace Listed

variable {id : NodeId} {node : Node}

theorem typed_discard (listed : graph.Listed) (found : graph.node? node.id = some node)
    {type : TypeId} {members : TypeMembers}
    (isMembers : (graph.discard node).membersOfType? type = some members) (other : NodeId) :
    other ∈ members.order.members ↔
      ∃ entry, (graph.discard node).entryOf? other = some entry ∧ entry.type = type := by
  rw [membersOfType?_discard] at isMembers
  rw [exists_entryOf?_discard graph node other fun entry => entry.type = type]
  split at isMembers
  · obtain ⟨before, isBefore, rfl⟩ := Option.map_eq_some_iff.mp isMembers
    rw [Ascending.mem_erase, listed.typed isBefore]
  · rename_i different
    rw [listed.typed isMembers]
    refine (and_iff_left_of_imp ?_).symm
    intro given same
    obtain ⟨entry, isEntry, isType⟩ := given
    rw [same, entryOf?_of_node? found] at isEntry
    cases isEntry
    exact different isType.symm

theorem named_discard (listed : graph.Listed) (found : graph.node? node.id = some node)
    {type : TypeId} {members : TypeMembers}
    (isMembers : (graph.discard node).membersOfType? type = some members) (name : String)
    (other : NodeId) :
    members.byName.find? name = some other ↔
      ∃ entry, (graph.discard node).entryOf? other = some entry ∧ entry.type = type ∧
        entry.name = name := by
  rw [membersOfType?_discard] at isMembers
  rw [exists_entryOf?_discard graph node other fun entry =>
    entry.type = type ∧ entry.name = name]
  split at isMembers
  · rename_i same
    obtain ⟨before, isBefore, rfl⟩ := Option.map_eq_some_iff.mp isMembers
    rw [Table.find?_erase, ← listed.named isBefore]
    split
    · rename_i isName
      refine iff_of_false (Option.some_ne_none other).symm ?_
      intro given
      obtain ⟨isFound, different⟩ := given
      have own : before.byName.find? name = some node.id :=
        (listed.named isBefore name node.id).mpr
          ⟨node.entry, entryOf?_of_node? found, same.symm, isName⟩
      rw [own] at isFound
      exact different (Option.some.inj isFound).symm
    · rename_i otherName
      refine (and_iff_left_of_imp ?_).symm
      intro isFound same
      obtain ⟨entry, isEntry, -, isName⟩ := (listed.named isBefore name other).mp isFound
      rw [same, entryOf?_of_node? found] at isEntry
      cases isEntry
      exact otherName isName
  · rename_i different
    rw [listed.named isMembers]
    refine (and_iff_left_of_imp ?_).symm
    intro given same
    obtain ⟨entry, isEntry, isType, -⟩ := given
    rw [same, entryOf?_of_node? found] at isEntry
    cases isEntry
    exact different isType.symm

theorem discard (listed : graph.Listed) (isNode : graph.node? id = some node) :
    (graph.discard node).Listed := by
  have found : graph.node? node.id = some node := by rw [listed.id_eq isNode, isNode]
  refine {
    schema := listed.schema.of_types rfl
    linked := listed.linked
    rows := (List.length_modify ..).trans listed.rows
    stamped := ?_
    typed := listed.typed_discard found
    named := listed.named_discard found
    typeOrder := ?_
    inState := ?_
    stateOrder := ascends_stateMembers_discard listed.stateOrder node
    tagged := ?_
    tagOrder := listed.tagOrder.dropAll node.tags node.id
    carried := ?_ }
  · intro other entry isEntry
    rw [entryOf?_discard] at isEntry
    split at isEntry
    · cases isEntry
    · exact listed.stamped isEntry
  · intro type members isMembers
    rw [membersOfType?_discard] at isMembers
    split at isMembers
    · obtain ⟨before, isBefore, rfl⟩ := Option.map_eq_some_iff.mp isMembers
      exact (listed.typeOrder isBefore).erase node.id
    · exact listed.typeOrder isMembers
  · intro state other
    rw [exists_entryOf?_discard graph node other fun entry => entry.state = some state,
      ← listed.inState, hasMember_stateMembers_discard]
    refine and_congr_right fun isIn => ?_
    constructor
    · intro notBoth same
      subst same
      exact notBoth ⟨(listed.inState_iff found state).mp isIn, rfl⟩
    · intro different both
      exact different both.2
  · intro tag other
    rw [exists_entryOf?_discard graph node other fun entry => tag ∈ entry.tags,
      ← listed.tagged, hasMember_tagMembers_discard]
    refine and_congr_right fun isIn => ?_
    constructor
    · intro notBoth same
      subst same
      exact notBoth ⟨(listed.tagged_iff found tag).mp isIn, rfl⟩
    · intro different both
      exact different both.2
  · intro other entry tag isEntry member
    rw [entryOf?_discard] at isEntry
    split at isEntry
    · cases isEntry
    · exact listed.carried isEntry member

end Listed

theorem keeps_clearProperties (id : NodeId) (properties : List PropertyId) :
    (clearProperties id properties).Keeps Listed :=
  Change.keeps_forEach fun property => keeps_setProperty id property .null

theorem keeps_dropReferences (id : NodeId) (property : PropertyId) (referrer : NodeId) :
    (dropReferences id property referrer).Keeps Listed :=
  (Change.keeps_ask _).bind fun _ => keeps_setProperty referrer property _

theorem keeps_removeNode (id : NodeId) : (removeNode id).Keeps Listed := by
  rw [removeNode]
  refine (Change.keeps_ask _).bind fun node => (keeps_clearProperties id _).bind fun _ => ?_
  refine (Change.keeps_ask _).bind fun node => Change.Keeps.bind ?_ fun _ => ?_
  · refine Change.keeps_forEach fun (property, referrers) => ?_
    exact Change.keeps_forEach fun referrer => keeps_dropReferences id property referrer
  · intro graph listed
    exact leads_nodeOrFault_bind (fun _ => listed) fun node found =>
      Change.leads_modify (listed.discard found)

end Graph

end LifecycleGraph
