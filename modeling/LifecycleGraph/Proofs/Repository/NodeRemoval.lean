import LifecycleGraph.Proofs.Graph.Covering
import LifecycleGraph.Proofs.Repository.Indices
import LifecycleGraph.Proofs.Repository.Reference

/-!
# What the removal of a node leaves

Clearing the values of a node changes no other node.  Then each reference to the node is
taken out of the value that has it, and nothing else is taken out: the value of a list keeps
its other items as they stood, and a single value goes altogether.  In the end the node is
nowhere, and the other nodes are the same but for these values and the referrers that were
the node itself.
-/

set_option autoImplicit false

namespace LifecycleGraph

/-! ## Values without a node -/

namespace Value

/-- What a value is without a node; nothing where no item is left. -/
def withoutNode (id : NodeId) : Value → Option Value
  | list items =>
      let left := items.filter fun item => item.node? ≠ some id
      if left.isEmpty then none else some (list left)
  | node held => if held = id then none else some (node held)
  | other => some other

theorem withoutNode_of_not_mem {id : NodeId} {value : Value} (filled : value.items ≠ [])
    (absent : id ∉ value.nodes) : value.withoutNode id = some value := by
  rw [mem_nodes_iff] at absent
  cases value with
  | list items =>
      have whole : items.filter (fun item => item.node? ≠ some id) = items := by
        refine List.filter_eq_self.mpr fun item member => decide_eq_true ?_
        intro isNode
        cases item <;> simp_all [node?, Value.items]
      simp only [withoutNode, whole]
      exact if_neg fun empty => filled (List.isEmpty_iff.mp empty)
  | node held =>
      refine if_neg ?_
      rintro rfl
      exact absent (List.mem_singleton.mpr rfl)
  | _ => rfl

theorem withoutNode_again (id : NodeId) (value : Value) :
    (value.withoutNode id).bind (withoutNode id) = value.withoutNode id := by
  cases value with
  | list items =>
      simp only [withoutNode]
      split
      · rfl
      · rename_i notEmpty
        simp only [Option.bind_some, withoutNode, List.filter_filter, Bool.and_self]
        exact if_neg notEmpty
  | node held =>
      by_cases same : held = id
      · simp [withoutNode, same]
      · simp [withoutNode, same]
  | _ => rfl

/-- A value that has a node and is no list is the node. -/
theorem eq_node_of_mem {id : NodeId} {value : Value} (member : id ∈ value.nodes)
    (notList : ∀ items, value ≠ .list items) : value = .node id := by
  rw [mem_nodes_iff] at member
  cases value with
  | null => cases member
  | list items => exact absurd rfl (notList items)
  | _ => exact (List.mem_singleton.mp member).symm

/-- Only of a list something is left. -/
theorem eq_list_of_withoutNode {id : NodeId} {value left : Value} (member : id ∈ value.nodes)
    (isLeft : value.withoutNode id = some left) : ∃ items, left = list items := by
  by_cases isList : ∃ items, value = list items
  · obtain ⟨items, rfl⟩ := isList
    simp only [withoutNode] at isLeft
    split at isLeft
    · cases isLeft
    · exact ⟨_, (Option.some.inj isLeft).symm⟩
  · obtain rfl := eq_node_of_mem member fun items same => isList ⟨items, same⟩
    rw [withoutNode, if_pos rfl] at isLeft
    cases isLeft

/-- The nodes that are left are the others. -/
theorem mem_nodes_withoutNode {id other : NodeId} (value : Value) :
    (∃ left, value.withoutNode id = some left ∧ other ∈ left.nodes) ↔
      other ∈ value.nodes ∧ other ≠ id := by
  simp only [mem_nodes_iff]
  cases value with
  | list items =>
      have kept : node other ∈ items.filter (fun item => item.node? ≠ some id) ↔
          node other ∈ items ∧ other ≠ id := by
        simp [List.mem_filter, node?]
      simp only [withoutNode, Value.items, ← kept]
      generalize items.filter (fun item => item.node? ≠ some id) = left
      cases left with
      | nil => simp
      | cons first rest => simp
  | node held =>
      by_cases same : held = id
      · simp only [withoutNode, same, if_true, Value.items, List.mem_singleton, node.injEq]
        simp
      · simp only [withoutNode, same, if_false, Value.items, List.mem_singleton, node.injEq,
          Option.some.injEq, exists_eq_left']
        exact (and_iff_left_of_imp fun isHeld => isHeld ▸ same).symm
  | _ => simp [withoutNode, Value.items]

end Value

namespace Graph

variable {graph : Graph} {id : NodeId}

/-- A list that a node property takes is held as it is. -/
theorem Validated.list_eq {declared : Property} {items : List Value} {held : Value}
    (validated : graph.Validated declared (.list items) held) (isNode : declared.isNode = true) :
    held = .list items := by
  obtain ⟨base, isType⟩ := declared.isNode_iff.mp isNode
  cases validated with
  | list _ fits =>
      rw [isType] at fits
      refine congrArg Value.list ?_
      induction fits with
      | nil => rfl
      | cons fit _ inductionHypothesis =>
          obtain ⟨_, rfl, rfl, -⟩ := (fit?_node_eq_some_iff base _ _).mp fit
          exact congrArg _ inductionHypothesis
  | wrapped _ _ notList _ => exact absurd rfl (notList _)
  | single _ _ anyList _ =>
      have isAny := anyList _ rfl
      rw [isType] at isAny
      cases isAny

/-- What is held of the rest of a value is the value without the node, if the node is all that
a single value is. -/
theorem held_withoutReferences {declared : Property} {value : Option Value} {held : Value}
    (isNode : declared.isNode = true)
    (single : ∀ given, value = some given → (∀ items, given ≠ .list items) → given = .node id)
    (validated : graph.Validated declared (withoutReferences id value) held) :
    (if held.items.isEmpty then none else some held) = value.bind (Value.withoutNode id) := by
  cases value with
  | none =>
      rw [validated.eq_null]
      rfl
  | some given =>
      by_cases isList : ∃ items, given = .list items
      · obtain ⟨items, rfl⟩ := isList
        rw [validated.list_eq isNode]
        rfl
      · obtain rfl := single given rfl fun items same => isList ⟨items, same⟩
        rw [validated.eq_null, Option.bind_some, Value.withoutNode, if_pos rfl]
        rfl

/-! ## Nodes that lose their references -/

/-- The nodes other than one keep all they have, but for references to this one. -/
structure Thinned (id : NodeId) (start state : Graph) : Prop where
  same : start.SameBared state
  tags : ∀ other, other ≠ id →
    (state.node? other).map Node.tags = (start.node? other).map Node.tags
  values : ∀ other, other ≠ id → ∀ property,
    state.valueAt? other property = start.valueAt? other property ∨
      start.Refers other property id ∧
        state.valueAt? other property =
          (start.valueAt? other property).bind (Value.withoutNode id)

theorem Thinned.refl (id : NodeId) (graph : Graph) : Thinned id graph graph :=
  ⟨.refl graph, fun _ _ => rfl, fun _ _ _ => .inl rfl⟩

theorem valueAt?_eq_carried (graph : Graph) (id : NodeId) (property : PropertyId) :
    graph.valueAt? id property =
      ((graph.node? id).map Node.carried).bind fun carried => carried.1.find? property := by
  rw [Option.bind_map]
  rfl

theorem tags_eq_carried (graph : Graph) (id : NodeId) :
    (graph.node? id).map Node.tags = ((graph.node? id).map Node.carried).map Prod.snd := by
  rw [Option.map_map]
  rfl

variable {start : Graph}

theorem Thinned.property? (thinned : Thinned id start graph) (property : PropertyId) :
    graph.property? property = start.property? property :=
  congrFun (property?_of_types thinned.same.types) property

/-- A reference that is left was there. -/
theorem Thinned.refers (thinned : Thinned id start graph) {referrer : NodeId}
    {property : PropertyId} (other : referrer ≠ id) (refers : graph.Refers referrer property id) :
    start.Refers referrer property id := by
  rcases thinned.values referrer other property with same | ⟨was, -⟩
  · obtain ⟨declared, value, isDeclared, isNode, isValue, member⟩ := refers
    exact ⟨declared, value, (thinned.property? property).symm.trans isDeclared, isNode,
      same.symm.trans isValue, member⟩
  · exact was

/-- A value of another node that is set has to be what is left of it without the node. -/
theorem leads_setProperty_thinned (listed : graph.Listed) (thinned : Thinned id start graph)
    (target : NodeId) (property : PropertyId) (value : Value)
    (left : target ≠ id → start.Refers target property id ∧
      ∀ declared held, graph.property? property = some declared → declared.isNode = true →
        graph.Validated declared value held →
          (if held.items.isEmpty then none else some held) =
            (start.valueAt? target property).bind (Value.withoutNode id)) :
    (setProperty target property value).Leads graph (fun _ changed => Thinned id start changed)
      (fun _ => True) := by
  refine ((leads_setProperty_altered listed target property value).and
    ((indifferent_sameBared start).keeps_setProperty target property value graph thinned.same)).imp
    ?_ fun _ _ => trivial
  intro _ changed outcome
  obtain ⟨⟨declared, node, held, isDeclared, found, validated, altered⟩, same⟩ := outcome
  by_cases isId : target = id
  · -- Only the node itself was altered.
    have untouched (other : NodeId) (different : other ≠ id) :
        (changed.node? other).map Node.carried = (graph.node? other).map Node.carried := by
      rw [altered.carried, isId]
      exact Option.map_congr fun _ _ => if_neg different
    refine ⟨same, fun other different => ?_, fun other different asked => ?_⟩
    · rw [tags_eq_carried, untouched other different, ← tags_eq_carried]
      exact thinned.tags other different
    · rw [valueAt?_eq_carried, untouched other different, ← valueAt?_eq_carried]
      exact thinned.values other different asked
  · obtain ⟨refers, isLeft⟩ := left isId
    have isNode : declared.isNode = true := by
      obtain ⟨other, _, isOther, isNode, -⟩ := refers
      rw [← thinned.property?, isDeclared] at isOther
      cases isOther
      exact isNode
    have notTag : declared.isTag = false := Property.isTag_eq_false isNode
    simp only [notTag, Bool.false_eq_true, if_false] at altered
    refine ⟨same, fun other different => ?_, fun other different asked => ?_⟩
    · rw [← thinned.tags other different, tags_eq_carried, altered.carried, Option.map_map]
      refine Option.map_congr fun node _ => ?_
      rw [Function.comp_apply]
      split <;> rfl
    · by_cases isIt : other = target ∧ asked = property
      · obtain ⟨rfl, rfl⟩ := isIt
        refine .inr ⟨refers, ?_⟩
        rw [← isLeft declared held isDeclared isNode validated, valueAt?_eq_carried,
          altered.carried, found]
        simp only [Option.map_some, Option.bind_some, if_true]
        exact (find?_hold held node asked).trans (if_pos rfl)
      · have kept : changed.valueAt? other asked = graph.valueAt? other asked := by
          rw [valueAt?_eq_carried, altered.carried]
          by_cases isTarget : other = target
          · rw [isTarget, found, valueAt?_of_node? found]
            simp only [Option.map_some, Option.bind_some, if_true]
            exact (find?_hold held node asked).trans (if_neg fun same => isIt ⟨isTarget, same⟩)
          · simp only [isTarget, if_false]
            exact (valueAt?_eq_carried graph other asked).symm
        rw [kept]
        exact thinned.values other different asked

/-- Taking the references out of a value that has some leaves it without the node. -/
theorem leads_dropReferences_thinned (listed : graph.Listed) (thinned : Thinned id start graph)
    {property : PropertyId} {referrer : NodeId} (refers : start.Refers referrer property id)
    (other : referrer ≠ id) :
    (dropReferences id property referrer).Leads graph (fun _ changed => Thinned id start changed)
      (fun _ => True) := by
  have ⟨_, value, _, _, isValue, member⟩ := refers
  rw [dropReferences]
  refine leads_nodeOrFault_bind (fun _ => trivial) fun node found => ?_
  refine leads_setProperty_thinned listed thinned referrer property _ fun _ => ⟨refers, ?_⟩
  intro declared held _ isNodes validated
  rw [isValue, Option.bind_some]
  rcases thinned.values referrer other property with same | ⟨-, isThinned⟩
  · rw [valueAt?_of_node? found, isValue] at same
    rw [same] at validated
    refine held_withoutReferences isNodes (fun given isGiven notList => ?_) validated
    obtain rfl := Option.some.inj isGiven
    exact Value.eq_node_of_mem member notList
  · rw [valueAt?_of_node? found, isValue, Option.bind_some] at isThinned
    rw [isThinned] at validated
    rw [← Value.withoutNode_again]
    refine held_withoutReferences isNodes (fun given isGiven notList => ?_) validated
    obtain ⟨items, isList⟩ := Value.eq_list_of_withoutNode member isGiven
    exact absurd isList (notList items)

/-- Until the node is taken out, the other nodes only lose their references to it. -/
theorem leads_removeNode_thinned (sound : start.Sound) (id : NodeId) :
    (removeNode id).Leads start
      (fun _ changed => ∃ last node, Thinned id start last ∧ last.node? id = some node ∧
        changed = last.discard node ∧ last.Listed)
      (fun _ => True) := by
  rw [removeNode]
  refine leads_nodeOrFault_bind (fun _ => trivial) fun node found => ?_
  have clears : (clearProperties id node.properties.keys).Leads start
      (fun _ state => state.Listed ∧ Thinned id start state) (fun _ => True) := by
    refine Change.leads_forEach (fun state => state.Listed ∧ Thinned id start state)
      ⟨sound.listed, .refl id start⟩ fun property _ state kept => ?_
    refine ((keeps_setProperty id property .null state kept.1).and
      (leads_setProperty_thinned kept.1 kept.2 id property .null fun other => ?_)).imp
      (fun _ _ both => both) fun _ _ => trivial
    exact absurd rfl other
  refine Change.leads_bind _ ((clears.and (leads_clearProperties sound found)).imp
    (fun _ _ both => both) fun _ _ => trivial) ?_
  rintro _ mid ⟨⟨-, midThinned⟩, emptied⟩
  refine leads_nodeOrFault_bind (fun _ => trivial) fun bare isBare => ?_
  -- Who is listed as a referrer now is another node, and referred to this one from the start.
  have refers {entry : PropertyId × Ascending NodeId} (isEntry : entry ∈ bare.referrers.entries)
      {referrer : NodeId} (member : referrer ∈ entry.2.members) :
      start.Refers referrer entry.1 id ∧ referrer ≠ id := by
    have sorted := (emptied.sound.referenced.sorted isBare).2
    have isReferrer : bare.referrers.hasMember entry.1 referrer = true :=
      (Table.hasMember_iff entry.1 referrer).mpr
        ⟨entry.2, (sorted.mem_entries_iff entry.1 entry.2).mp isEntry, member⟩
    have now : mid.Refers referrer entry.1 id := by
      refine (emptied.sound.referenced.mirrored id entry.1 referrer).mp ?_
      rwa [refersBack, isBare, Option.any_some]
    have other : referrer ≠ id := by
      rintro rfl
      obtain ⟨_, _, -, -, isValue, -⟩ := now
      rw [emptied.empty] at isValue
      cases isValue
    exact ⟨midThinned.refers other now, other⟩
  refine Change.leads_bind (fun _ state => state.Listed ∧ Thinned id start state)
    (Change.leads_forEach (fun state => state.Listed ∧ Thinned id start state)
      ⟨emptied.sound.listed, midThinned⟩ fun entry isEntry state kept => ?_) ?_
  · refine Change.leads_forEach (fun state => state.Listed ∧ Thinned id start state) kept
      fun referrer member inner innerKept => ?_
    obtain ⟨wasReferring, other⟩ := refers isEntry member
    exact ((keeps_dropReferences id entry.1 referrer inner innerKept.1).and
      (leads_dropReferences_thinned innerKept.1 innerKept.2 wasReferring other)).imp
      (fun _ _ both => both) fun _ _ => trivial
  · rintro _ last ⟨listed, thinned⟩
    refine leads_nodeOrFault_bind (fun _ => trivial) fun node isNode => ?_
    exact Change.leads_modify ⟨last, node, thinned, isNode, rfl, listed⟩

/-! ## A node that is nowhere -/

/-- A node is in no index, refers to nobody, and is in no value of a node property. -/
structure Absent (graph : Graph) (id : NodeId) : Prop where
  gone : graph.node? id = none
  ofType : ∀ type, id ∉ graph.nodesOfType type
  named : ∀ type members name, graph.membersOfType? type = some members →
    members.byName.find? name ≠ some id
  everyNode : id ∉ graph.allNodes
  inState : ∀ state, id ∉ graph.nodesInState state
  withTag : ∀ tag, id ∉ graph.nodesWithTag tag
  unreferring : ∀ other node property, graph.node? other = some node →
    id ∉ node.referrersBy property
  unheld : ∀ other node property declared value, graph.node? other = some node →
    graph.property? property = some declared → declared.isNode = true →
    node.value? property = some value → id ∉ value.nodes

/-- In a sound graph a node that is not there is nowhere. -/
theorem Sound.absent (sound : graph.Sound) (gone : graph.node? id = none) : graph.Absent id := by
  have notThere {node : Node} (found : graph.node? id = some node) : False := by
    rw [gone] at found
    cases found
  have notHeld {property : PropertyId} {value : Value}
      (isValue : graph.valueAt? id property = some value) : False := by
    obtain ⟨node, found, -⟩ := Option.bind_eq_some_iff.mp isValue
    exact notThere found
  exact {
    gone
    ofType := fun type member => by
      obtain ⟨node, found, -⟩ := (sound.listed.mem_nodesOfType type id).mp member
      exact notThere found
    named := fun type members name isMembers isNamed => by
      obtain ⟨node, found, -⟩ := (sound.listed.find?_byName isMembers name id).mp isNamed
      exact notThere found
    everyNode := fun member => by
      obtain ⟨node, found⟩ := Option.isSome_iff_exists.mp ((sound.listed.mem_allNodes id).mp member)
      exact notThere found
    inState := fun state member => by
      obtain ⟨node, found, -⟩ := (sound.listed.mem_nodesInState state id).mp member
      exact notThere found
    withTag := fun tag member => by
      obtain ⟨node, found, -⟩ := (sound.listed.mem_nodesWithTag tag id).mp member
      exact notThere found
    unreferring := fun other node property found member => by
      have refers : graph.refersBack other property id = true := by
        rw [refersBack, found, Option.any_some]
        exact (Table.mem_listed_iff property id).mp member
      obtain ⟨_, _, -, -, isValue, -⟩ := (sound.referenced.mirrored other property id).mp refers
      exact notHeld isValue
    unheld := fun other node property declared value found isDeclared isNode isValue member => by
      obtain ⟨again, ⟨isAgain, -⟩, -, fits⟩ := sound.referenced.held
        ((valueAt?_of_node? found property).trans isValue)
      obtain rfl := Option.some.inj (isDeclared.symm.trans isAgain)
      obtain ⟨type, isType⟩ := (fits.nodes isNode).typeOf?_of_mem_nodes isNode member
      obtain ⟨target, isTarget, -⟩ := (typeOf?_eq_some_iff id type).mp isType
      exact notThere isTarget }

/-- All is as in another graph but for one node: the other nodes have the same names, types,
states, descriptions, services, flat lists and values, where a value of a node property is
without the node, and who refers to them is the same but for the node. -/
structure Cleared (id : NodeId) (old new : Graph) : Prop where
  types : new.types = old.types
  forest : new.tags = old.tags
  states : new.states = old.states
  bared : ∀ other, other ≠ id →
    (new.node? other).map Node.bared = (old.node? other).map Node.bared
  tags : ∀ other, other ≠ id →
    (new.node? other).map Node.tags = (old.node? other).map Node.tags
  values : ∀ other, other ≠ id → ∀ property, new.valueAt? other property =
    if (old.property? property).any Property.isNode then
      (old.valueAt? other property).bind (Value.withoutNode id)
    else old.valueAt? other property
  referrers : ∀ other, other ≠ id → ∀ property source,
    new.refersBack other property source = true ↔
      old.refersBack other property source = true ∧ source ≠ id

/-- The nodes that are held in node properties beside the node are the same. -/
theorem refers_iff_of_values {new : Graph} {source other : NodeId} {property : PropertyId}
    (types : new.types = graph.types)
    (value : new.valueAt? source property =
      if (graph.property? property).any Property.isNode then
        (graph.valueAt? source property).bind (Value.withoutNode id)
      else graph.valueAt? source property) (different : other ≠ id) :
    new.Refers source property other ↔ graph.Refers source property other := by
  have sameProperty : new.property? property = graph.property? property := by
    rw [property?_of_types types]
  have isValue {declared : Property} (isDeclared : graph.property? property = some declared)
      (isNode : declared.isNode = true) : new.valueAt? source property =
        (graph.valueAt? source property).bind (Value.withoutNode id) := by
    rw [value, isDeclared, Option.any_some, if_pos isNode]
  constructor
  · rintro ⟨declared, left, isDeclared, isNode, isLeft, member⟩
    rw [sameProperty] at isDeclared
    rw [isValue isDeclared isNode] at isLeft
    obtain ⟨held, isHeld, isLeft⟩ := Option.bind_eq_some_iff.mp isLeft
    have member := (Value.mem_nodes_withoutNode held).mp ⟨left, isLeft, member⟩
    exact ⟨declared, held, isDeclared, isNode, isHeld, member.1⟩
  · rintro ⟨declared, held, isDeclared, isNode, isHeld, member⟩
    obtain ⟨left, isLeft, member⟩ := (Value.mem_nodes_withoutNode held).mpr ⟨member, different⟩
    refine ⟨declared, left, sameProperty.trans isDeclared, isNode, ?_, member⟩
    rw [isValue isDeclared isNode, isHeld]
    exact isLeft

/-- What is left after thinning, once the node is taken out and nobody refers to it. -/
theorem Thinned.cleared (thinned : Thinned id start graph) (startSound : start.Sound)
    {node : Node} (listed : graph.Listed) (found : graph.node? id = some node)
    (sound : (graph.discard node).Sound) : Cleared id start (graph.discard node) := by
  have content (other : NodeId) : (graph.discard node).node? other =
      if other = id then none else graph.node? other := by
    rw [node?_discard, listed.id_eq found]
  have gone : (graph.discard node).node? id = none := by rw [content, if_pos rfl]
  have types : (graph.discard node).types = start.types := thinned.same.types
  have sameProperty (property : PropertyId) :
      (graph.discard node).property? property = start.property? property :=
    thinned.property? property
  have valueAt {other : NodeId} (different : other ≠ id) (property : PropertyId) :
      (graph.discard node).valueAt? other property = graph.valueAt? other property := by
    rw [valueAt?, content, if_neg different, ← valueAt?]
  have values (other : NodeId) (different : other ≠ id) (property : PropertyId) :
      (graph.discard node).valueAt? other property =
        if (start.property? property).any Property.isNode then
          (start.valueAt? other property).bind (Value.withoutNode id)
        else start.valueAt? other property := by
    rcases thinned.values other different property with same | ⟨refers, isLeft⟩
    · split
      · -- A value that is as it was does not have the node, which is not there any more.
        rename_i isNode
        obtain ⟨declared, isDeclared, isNode⟩ := (Option.any_eq_true _ _).mp isNode
        rw [valueAt different, same]
        cases isValue : start.valueAt? other property with
        | none => rfl
        | some value =>
            obtain ⟨holder, isHolder, held⟩ := Option.bind_eq_some_iff.mp
              ((valueAt different property).trans (same.trans isValue))
            have absent := (sound.absent gone).unheld other holder property declared value isHolder
              ((sameProperty property).trans isDeclared) isNode held
            obtain ⟨_, -, items, -⟩ := startSound.referenced.held isValue
            exact (Value.withoutNode_of_not_mem items absent).symm
      · exact (valueAt different property).trans same
    · obtain ⟨declared, _, isDeclared, isNode, -⟩ := refers
      rw [valueAt different, isLeft, isDeclared, Option.any_some, if_pos isNode]
  refine ⟨types, thinned.same.tags, thinned.same.states, fun other different => ?_,
    fun other different => ?_, values, fun other different property source => ?_⟩
  · rw [content, if_neg different, thinned.same.bared]
  · rw [content, if_neg different, thinned.tags other different]
  · rw [sound.referenced.mirrored, startSound.referenced.mirrored]
    by_cases isId : source = id
    · refine iff_of_false (fun refers => ?_) fun both => both.2 isId
      obtain ⟨_, _, -, -, isValue, -⟩ := refers
      rw [isId, valueAt?, gone] at isValue
      cases isValue
    · rw [refers_iff_of_values types (values source isId property) different]
      exact (and_iff_left isId).symm

end Graph

namespace Repository

open Graph

variable {repository : Repository}

/-- As long as no declared type is defined anew, a node that is there can always be removed.
Then it is nowhere, and the other nodes have lost nothing but it. -/
theorem removeNode_clears (reachable : SteadilyReachable repository) {id : NodeId}
    (live : repository.graph.Live id) :
    ∃ changed, (onGraph (Graph.removeNode id)).apply repository =
        (.ok (), { repository with graph := changed }) ∧
      changed.Absent id ∧ Cleared id repository.graph changed := by
  have sound := sound_of_steadilyReachable reachable
  have leads : (Graph.removeNode id).Leads repository.graph
      (fun _ changed => changed.Absent id ∧ Cleared id repository.graph changed)
      (fun _ => False) := by
    refine ((leads_removeNode sound id).and (leads_removeNode_thinned sound id)).imp ?_ ?_
    · rintro _ changed ⟨changedSound, last, node, thinned, isNode, rfl, listed⟩
      refine ⟨changedSound.absent ?_, thinned.cleared sound listed isNode changedSound⟩
      rw [node?_discard, listed.id_eq isNode, if_pos rfl]
    · rintro _ ⟨⟨-, gone⟩, -⟩
      rw [Live, gone] at live
      cases live
  obtain ⟨_, changed, applied, holds⟩ := leads.exists_answer
  refine ⟨changed, ?_, holds⟩
  rw [onGraph, Change.apply_within, applied]

/-- Three nodes that have one next node and a list of parts: the second one is its own next node,
is twice a part of the first one, and is the only part of the third one. -/
def sharedPart : Repository :=
  Operation.run
    [.addNodeType "Task" ⟨none, "", [("next", .text "Task"),
        ("parts", .object [("type", .text "Task"), ("list", .boolean true)])]⟩,
      .mutate (.addNode ⟨0⟩ "a"), .mutate (.addNode ⟨0⟩ "b"), .mutate (.addNode ⟨0⟩ "c"),
      .mutate (.setPropertyNamed ⟨0⟩ "next" (.node ⟨1⟩)),
      .mutate (.setPropertyNamed ⟨0⟩ "parts"
        (.list [.node ⟨2⟩, .node ⟨1⟩, .node ⟨0⟩, .node ⟨1⟩, .node ⟨2⟩])),
      .mutate (.setPropertyNamed ⟨1⟩ "next" (.node ⟨1⟩)),
      .mutate (.setPropertyNamed ⟨1⟩ "parts" (.list [.node ⟨2⟩])),
      .mutate (.setPropertyNamed ⟨2⟩ "parts" (.node ⟨1⟩))]
    .empty

theorem steadilyReachable_sharedPart : SteadilyReachable sharedPart :=
  Reached.empty.run (by decide)

/-- Without the second node the first one has its other parts in their order, and the third one
has none. -/
theorem removeNode_clears_sharedPart :
    sharedPart.graph.Live ⟨1⟩ ∧
    ∃ changed, (onGraph (Graph.removeNode ⟨1⟩)).apply sharedPart =
        (.ok (), { sharedPart with graph := changed }) ∧
      changed.node? ⟨1⟩ = none ∧
      (changed.valueAt? ⟨0⟩ ⟨⟨0⟩, 1⟩).map Value.nodes = some [⟨2⟩, ⟨0⟩, ⟨2⟩] ∧
      (changed.valueAt? ⟨0⟩ ⟨⟨0⟩, 0⟩).isNone = true ∧
      (changed.valueAt? ⟨2⟩ ⟨⟨0⟩, 1⟩).isNone = true := by
  have live : sharedPart.graph.Live ⟨1⟩ := by
    rw [Live]
    decide +kernel
  obtain ⟨changed, answered, absent, cleared⟩ :=
    removeNode_clears steadilyReachable_sharedPart live
  refine ⟨live, changed, answered, absent.gone, ?_, ?_, ?_⟩
  · rw [cleared.values ⟨0⟩ (by decide)]
    decide +kernel
  · rw [cleared.values ⟨0⟩ (by decide)]
    decide +kernel
  · rw [cleared.values ⟨2⟩ (by decide)]
    decide +kernel

end Repository

end LifecycleGraph
