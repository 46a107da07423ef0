import Mathlib.Data.List.Count
import LifecycleGraph.Proofs.Graph.NodeRemoval
import LifecycleGraph.Proofs.Graph.TagRemoval

/-!
# Flat lists that cover values

A flat list covers the values of its node if it has each tag at least as often as
the tag properties of the node hold it, taken together.  Setting a value keeps this,
unless a tag of the old value occurs more often in the new one: the tags that both
values hold are left alone, so that the list is not given the further occurrences.
-/

set_option autoImplicit false

namespace LifecycleGraph

/-- What a node holds, and its flat list. -/
def Node.carried (node : Node) : Table PropertyId Value × List TagId :=
  (node.properties, node.tags)

namespace Graph

variable {graph : Graph}

/-! ## The tags that a node holds in values -/

/-- The tags that a value has if it is one of a tag property. -/
def tagsUnder (graph : Graph) (property : PropertyId) (value : Value) : List TagId :=
  if (graph.property? property).any Property.isTag then value.tags else []

/-- The tags among the values of tag properties, each as often as it is held. -/
def heldTags (graph : Graph) (values : Table PropertyId Value) : List TagId :=
  values.entries.flatMap fun entry => graph.tagsUnder entry.1 entry.2

/-- A value of a tag property of the node has the tag. -/
def HoldsTag (graph : Graph) (node : Node) (tag : TagId) : Prop :=
  ∃ property declared value, graph.property? property = some declared ∧ declared.isTag = true ∧
    node.value? property = some value ∧ tag ∈ value.tags

theorem mem_heldTags_iff (graph : Graph) {node : Node} (sorted : node.properties.Sorted)
    (tag : TagId) : tag ∈ graph.heldTags node.properties ↔ graph.HoldsTag node tag := by
  rw [heldTags, List.mem_flatMap]
  constructor
  · rintro ⟨⟨property, value⟩, isEntry, member⟩
    rw [tagsUnder] at member
    split at member
    · rename_i isTag
      obtain ⟨declared, isDeclared, isTag⟩ := (Option.any_eq_true _ _).mp isTag
      exact ⟨property, declared, value, isDeclared, isTag,
        (sorted.mem_entries_iff property value).mp isEntry, member⟩
    · cases member
  · rintro ⟨property, declared, value, isDeclared, isTag, isValue, member⟩
    refine ⟨(property, value), (sorted.mem_entries_iff property value).mpr isValue, ?_⟩
    rwa [tagsUnder, isDeclared, Option.any_some, if_pos isTag]

theorem heldTags_of_types {old new : Graph} (types : new.types = old.types)
    (values : Table PropertyId Value) : new.heldTags values = old.heldTags values := by
  unfold heldTags tagsUnder
  rw [property?_of_types types]

theorem tags_of_items_isEmpty {value : Value} (empty : value.items.isEmpty = true) :
    value.tags = [] := by
  rw [Value.tags, List.isEmpty_iff.mp empty, List.filterMap_nil]

/-- What a property holds, beside what the others hold. -/
theorem perm_heldTags (graph : Graph) {values : Table PropertyId Value} (sorted : values.Sorted)
    (property : PropertyId) :
    (graph.heldTags values).Perm
      (graph.tagsUnder property ((values.find? property).getD .null) ++
        graph.heldTags (values.erase property)) := by
  cases found : values.find? property with
  | none =>
      have unchanged : values.entries.Perm (values.erase property).entries := by
        refine sorted.perm_entries (sorted.erase property) fun key => ?_
        rw [Table.find?_erase]
        split
        · rename_i same
          rw [← same, found]
        · rfl
      have nothing : graph.tagsUnder property .null = [] := by
        unfold tagsUnder
        split <;> rfl
      rw [Option.getD_none, nothing, List.nil_append]
      exact unchanged.flatMap_right _
  | some value =>
      exact (sorted.perm_erase found).flatMap_right _

/-- A value as a table of values holds it. -/
def holdIn (property : PropertyId) (value : Value) (values : Table PropertyId Value) :
    Table PropertyId Value :=
  if value.items.isEmpty then values.erase property else values.insert property value

/-- A new value takes the place of the old one, beside the others. -/
theorem count_heldTags_holdIn (graph : Graph) {node : Node} (sorted : node.properties.Sorted)
    (property : PropertyId) (value : Value) (tag : TagId) :
    ∃ others,
      (graph.heldTags node.properties).count tag =
        others + (graph.tagsUnder property ((node.value? property).getD .null)).count tag ∧
      (graph.heldTags (holdIn property value node.properties)).count tag =
        others + (graph.tagsUnder property value).count tag := by
  have newSorted : (hold property value node).properties.Sorted := sorted_hold value sorted
  have before := (perm_heldTags graph sorted property).count_eq tag
  have after := (perm_heldTags graph newSorted property).count_eq tag
  have rest : (graph.heldTags ((hold property value node).properties.erase property)).Perm
      (graph.heldTags (node.properties.erase property)) := by
    refine List.Perm.flatMap_right _ ((newSorted.erase property).perm_entries
      (sorted.erase property) fun key => ?_)
    rw [Table.find?_erase, Table.find?_erase, find?_hold]
    by_cases same : property = key
    · simp [same]
    · simp [same, Ne.symm same]
  have held : graph.tagsUnder property
      (((hold property value node).properties.find? property).getD .null) =
        graph.tagsUnder property value := by
    rw [find?_hold, if_pos rfl]
    split
    · rename_i empty
      rw [Option.getD_none, tagsUnder, tagsUnder, tags_of_items_isEmpty empty]
      rfl
    · rfl
  rw [held, List.count_append, rest.count_eq, Nat.add_comm] at after
  rw [List.count_append, Nat.add_comm] at before
  exact ⟨_, before, after⟩

/-- Without values there is nothing to cover. -/
theorem heldTags_of_empty (graph : Graph) {values : Table PropertyId Value}
    (empty : ∀ property, values.find? property = none) : graph.heldTags values = [] := by
  have noEntries : values.entries = [] := by
    refine List.eq_nil_iff_forall_not_mem.mpr fun entry member => ?_
    have present := Table.isSome_findIn_of_mem member
    have absent : Table.findIn entry.1 values.entries = none := empty entry.1
    rw [absent] at present
    cases present
  rw [heldTags, noEntries, List.flatMap_nil]

/-! ## Covering -/

/-- The flat list of each node covers what the node holds. -/
def Covered (graph : Graph) : Prop :=
  ∀ id node, graph.node? id = some node → ∀ tag,
    (graph.heldTags node.properties).count tag ≤ node.tags.count tag

/-- One node carries something else, and no other does. -/
structure Altered (id : NodeId)
    (change : Table PropertyId Value × List TagId → Table PropertyId Value × List TagId)
    (old new : Graph) : Prop where
  types : new.types = old.types
  carried : ∀ other, (new.node? other).map Node.carried =
    (old.node? other).map fun node =>
      if other = id then change node.carried else node.carried

variable {id : NodeId}
  {change further : Table PropertyId Value × List TagId → Table PropertyId Value × List TagId}

theorem Altered.refl (id : NodeId) (graph : Graph) :
    Altered id (fun carried => carried) graph graph where
  types := rfl
  carried other := by
    refine Option.map_congr fun node _ => ?_
    split <;> rfl

theorem Altered.trans {old mid new : Graph} (first : Altered id change old mid)
    (second : Altered id further mid new) :
    Altered id (fun carried => further (change carried)) old new where
  types := second.types.trans first.types
  carried other := by
    have known := congrArg (Option.map fun carried =>
      if other = id then further carried else carried) (first.carried other)
    rw [Option.map_map, Option.map_map] at known
    rw [second.carried]
    refine known.trans (Option.map_congr fun node _ => ?_)
    rw [Function.comp_apply]
    split <;> rfl

/-- A node is changed where it stands, and the indices with it. -/
theorem altered_adjustNode (nodeChange : Node → Node) (states : Table StateId (Ascending NodeId))
    (members : Table TagId (Ascending NodeId))
    (shown : ∀ node, graph.node? id = some node →
      (nodeChange node).carried = change node.carried) :
    Altered id change graph
      { graph.adjustNode id nodeChange with stateMembers := states, tagMembers := members } where
  types := rfl
  carried other := by
    have adjusted : Graph.node?
        { graph.adjustNode id nodeChange with stateMembers := states, tagMembers := members }
          other = (graph.adjustNode id nodeChange).node? other := rfl
    rw [adjusted, node?_adjustNode]
    split
    · rename_i same
      rw [Option.map_map]
      refine Option.map_congr fun node found => ?_
      rw [same] at found
      exact shown node found
    · rfl

/-- Where the other nodes were covered, the one that was altered decides. -/
theorem Covered.alter {old new : Graph} (covered : old.Covered)
    (altered : Altered id change old new)
    (own : ∀ node, old.node? id = some node → ∀ tag,
      (old.heldTags (change node.carried).1).count tag ≤ (change node.carried).2.count tag) :
    new.Covered := by
  intro other node found tag
  have known := altered.carried other
  rw [found, Option.map_some] at known
  obtain ⟨was, isWas, same⟩ := Option.map_eq_some_iff.mp known.symm
  rw [heldTags_of_types altered.types]
  split at same
  · rename_i isId
    rw [isId] at isWas
    have holds := own was isWas tag
    rw [same] at holds
    exact holds
  · obtain ⟨properties, tags⟩ := Prod.mk.inj same
    rw [← properties, ← tags]
    exact covered other was isWas tag

/-! ## Flat lists that are changed -/

theorem leads_pushTag_altered (id : NodeId) (tag : TagId) (graph : Graph) :
    (pushTag id tag).Leads graph
      (fun _ changed => Altered id (fun carried => (carried.1, carried.2 ++ [tag])) graph changed)
      (fun changed => changed = graph) := by
  rw [pushTag, Change.leads_ofFunction]
  by_cases present : graph.tags.contains tag = true
  · simp only [present, Bool.not_true, Bool.false_eq_true, if_false]
    cases graph.node? id with
    | none => rfl
    | some node => exact altered_adjustNode _ graph.stateMembers _ fun _ _ => rfl
  · have gone : graph.tags.contains tag = false := by simpa using present
    simp [gone]

theorem leads_removeTag_altered (listed : graph.Listed) (id : NodeId) (tag : TagId) :
    (removeTag id tag).Leads graph
      (fun _ changed => Altered id (fun carried => (carried.1, carried.2.erase tag)) graph changed)
      (fun changed => changed = graph) := by
  rw [removeTag, Change.leads_ofFunction]
  cases found : graph.node? id with
  | none => rfl
  | some node =>
      simp only
      by_cases held : node.tags.contains tag = true
      · simp only [held, if_true]
        rw [dropTag, listed.id_eq found]
        refine altered_adjustNode _ graph.stateMembers _ fun other isOther => ?_
        rw [found] at isOther
        cases isOther
        rfl
      · simp only [held, Bool.false_eq_true, if_false]
        refine ⟨rfl, fun other => Option.map_congr fun known isKnown => ?_⟩
        split
        · rename_i same
          rw [same, found] at isKnown
          obtain rfl := Option.some.inj isKnown
          have absent : tag ∉ node.tags := by simpa using held
          simp [Node.carried, List.erase_of_not_mem absent]
        · rfl

/-- A flat list after a new value. -/
def relisted (old new : Value) (tags : List TagId) : List TagId :=
  tags.diff (old.tags.filter fun tag => !new.tags.contains tag) ++
    new.tags.filter fun tag => !old.tags.contains tag

theorem leads_retag_altered (listed : graph.Listed) (id : NodeId) (old new : Value) :
    (retag id old new).Leads graph
      (fun _ changed => Altered id (fun carried => (carried.1, relisted old new carried.2)) graph
        changed)
      (fun _ => True) := by
  rw [retag]
  refine Change.leads_bind
    (fun _ changed => changed.Listed ∧ Altered id (fun carried => (carried.1,
      carried.2.diff (old.tags.filter fun tag => !new.tags.contains tag))) graph changed)
    (Change.leads_forEach_progress
      (fun done state => state.Listed ∧
        Altered id (fun carried => (carried.1, carried.2.diff done)) graph state)
      ⟨listed, .refl id graph⟩ ?_) ?_
  · intro done tag rest _ state reached
    obtain ⟨stateListed, altered⟩ := reached
    refine Change.leads_bind _ (((keeps_removeTag id tag state stateListed).and
      (leads_removeTag_altered stateListed id tag)).imp (fun _ _ both => both)
        fun _ _ => trivial) ?_
    intro _ changed outcome
    refine Change.leads_pure ⟨outcome.1, ?_⟩
    simpa only [List.diff_append, List.diff_cons, List.diff_nil] using altered.trans outcome.2
  · intro _ state reached
    refine Change.leads_forEach_progress
      (fun given changed => Altered id (fun carried => (carried.1,
        carried.2.diff (old.tags.filter fun tag => !new.tags.contains tag) ++ given)) graph changed)
      (by simpa only [List.append_nil] using reached.2) ?_
    intro given tag rest _ changed altered
    refine (leads_pushTag_altered id tag changed).imp ?_ fun _ _ => trivial
    intro _ later pushed
    simpa only [List.append_assoc] using altered.trans pushed

/-- A list that covers the old value beside others covers the new one beside them, unless
the new one has more of a tag that the old one has. -/
theorem le_count_relisted {old new : Value} {tags : List TagId} {tag : TagId} {others : Nat}
    (covers : others + old.tags.count tag ≤ tags.count tag)
    (fewer : tag ∈ old.tags → new.tags.count tag ≤ old.tags.count tag) :
    others + new.tags.count tag ≤ (relisted old new tags).count tag := by
  rw [relisted, List.count_append, List.count_diff]
  by_cases inOld : tag ∈ old.tags
  · have few := fewer inOld
    by_cases inNew : tag ∈ new.tags
    · have stays : (old.tags.filter fun tag => !new.tags.contains tag).count tag = 0 :=
        List.count_eq_zero.mpr fun member => by simpa [inNew] using List.of_mem_filter member
      omega
    · have gone : new.tags.count tag = 0 := List.count_eq_zero.mpr inNew
      have leaves : (old.tags.filter fun tag => !new.tags.contains tag).count tag =
          old.tags.count tag := List.count_filter (by simpa using inNew)
      omega
  · have none : old.tags.count tag = 0 := List.count_eq_zero.mpr inOld
    have stays : (old.tags.filter fun tag => !new.tags.contains tag).count tag = 0 :=
      List.count_eq_zero.mpr fun member => inOld (List.mem_of_mem_filter member)
    have comes : (new.tags.filter fun tag => !old.tags.contains tag).count tag =
        new.tags.count tag := List.count_filter (by simpa using inOld)
    omega

/-! ## Values that are set -/

theorem Property.isTag_eq_false {declared : Property} (isNode : declared.isNode = true) :
    declared.isTag = false := by
  obtain ⟨base, isType⟩ := declared.isNode_iff.mp isNode
  rw [Property.isTag, isType]
  rfl

theorem altered_relink (graph : Graph) (id : NodeId) (property : PropertyId) (old new : Value) :
    Altered id (fun carried => carried) graph (graph.relink id property old new) where
  types := by rw [relink_eq, adjustAll_frame, adjustAll_frame]
  carried other := by
    rw [node?_relink, Option.map_map]
    refine Option.map_congr fun node _ => ?_
    have same : (relinked id property old new other node).carried = node.carried := by
      rw [relinked]
      split <;> split <;> rfl
    rw [Function.comp_apply, same]
    split <;> rfl

theorem leads_follow_altered (listed : graph.Listed) (id : NodeId) (property : PropertyId)
    (declared : Property) (old new : Value) :
    (follow id property declared old new).Leads graph
      (fun _ mid => Altered id (fun carried => (carried.1,
        if declared.isTag then relisted old new carried.2 else carried.2)) graph mid)
      (fun _ => True) := by
  rw [follow]
  by_cases isNode : declared.isNode = true
  · simp only [isNode, if_true, Property.isTag_eq_false isNode, Bool.false_eq_true, if_false]
    exact Change.leads_modify (altered_relink graph id property old new)
  · by_cases isTag : declared.isTag = true
    · simp only [isNode, isTag, Bool.false_eq_true, if_false, if_true]
      exact leads_retag_altered listed id old new
    · simp only [isNode, isTag, Bool.false_eq_true, if_false]
      exact Change.leads_pure (.refl id graph)

/-- The old value has no tag of which the new one has more. -/
def NoMore (old new : Value) : Prop :=
  ∀ tag ∈ old.tags, new.tags.count tag ≤ old.tags.count tag

/-- A value that is set takes the place of the old one, and its tags that of the old tags. -/
theorem leads_setProperty_altered (listed : graph.Listed) (id : NodeId) (property : PropertyId)
    (value : Value) :
    (setProperty id property value).Leads graph
      (fun _ changed => ∃ declared node held, graph.property? property = some declared ∧
        graph.node? id = some node ∧ graph.Validated declared value held ∧
        Altered id (fun carried => (holdIn property held carried.1,
          if declared.isTag then relisted ((node.value? property).getD .null) held carried.2
          else carried.2)) graph changed)
      (fun _ => True) := by
  rw [setProperty_eq]
  refine Change.leads_ask_bind (fun answer isDeclaration => ?_) fun _ _ => trivial
  obtain ⟨declared, node⟩ := answer
  obtain ⟨isDeclared, found, -⟩ := (declaration_eq_ok_iff node).mp isDeclaration
  refine Change.leads_ask_bind (fun held isHeld => ?_) fun _ _ => trivial
  have validated := (validate_eq_ok_iff declared value held).mp isHeld
  refine Change.leads_bind _ (leads_follow_altered listed id property declared
    ((node.value? property).getD .null) held) ?_
  intro _ mid followed
  have held? : Altered id (fun carried => (holdIn property held carried.1, carried.2)) mid
      (mid.adjustNode id (hold property held)) :=
    altered_adjustNode (hold property held) mid.stateMembers mid.tagMembers fun _ _ => rfl
  exact Change.leads_modify
    ⟨declared, node, held, isDeclared, found, validated, followed.trans held?⟩

theorem leads_setProperty_covered (sound : graph.Sound) (covered : graph.Covered) (id : NodeId)
    (property : PropertyId) (value : Value)
    (noMore : (graph.property? property).any Property.isTag = true →
      NoMore ((graph.valueAt? id property).getD .null) value) :
    (setProperty id property value).Leads graph (fun _ changed => changed.Covered)
      (fun _ => True) := by
  refine (leads_setProperty_altered sound.listed id property value).imp ?_ fun _ stopped => stopped
  intro _ changed outcome
  obtain ⟨declared, node, held, isDeclared, found, validated, altered⟩ := outcome
  refine covered.alter altered fun other isOther tag => ?_
  obtain rfl := Option.some.inj (found.symm.trans isOther)
  obtain ⟨others, before, after⟩ := count_heldTags_holdIn graph
    (sound.referenced.sorted found).1 property held tag
  have covers := covered id node found tag
  have under (value : Value) : graph.tagsUnder property value =
      if declared.isTag then value.tags else [] := by
    rw [tagsUnder, isDeclared, Option.any_some]
  rw [under] at before after
  simp only [Node.carried]
  rw [before] at covers
  rw [after]
  by_cases isTag : declared.isTag = true
  · rw [if_pos isTag] at covers ⊢
    rw [if_pos isTag]
    refine le_count_relisted covers fun member => ?_
    rw [isDeclared, Option.any_some, valueAt?_of_node? found] at noMore
    rw [validated.tags_eq]
    exact noMore isTag tag member
  · simpa only [isTag, Bool.false_eq_true, if_false, List.count_nil, Nat.add_zero] using covers

theorem noMore_null (old : Value) : NoMore old .null :=
  fun _ _ => Nat.zero_le _

theorem noMore_withoutReferences (id : NodeId) (value : Option Value) :
    NoMore (value.getD .null) (withoutReferences id value) := by
  cases value with
  | none => exact noMore_null .null
  | some value =>
      cases value with
      | list items =>
          intro tag _
          have tags : (Value.list (items.filter fun item => item.node? ≠ some id)).tags =
              (Value.list items).tags := by
            simp only [Value.tags, Value.items, List.filterMap_filter]
            refine List.filterMap_congr fun item _ => ?_
            cases item <;> simp [Value.node?, Value.tag?]
          refine Nat.le_of_eq ?_
          rw [withoutReferences, Option.getD_some, tags]
      | _ => exact noMore_null _

/-! ## Other changes of nodes -/

theorem Covered.unaltered {old new : Graph} (covered : old.Covered)
    (altered : Altered id (fun carried => carried) old new) : new.Covered :=
  covered.alter altered fun node found => covered id node found

theorem Covered.enroll (covered : graph.Covered) (type : TypeId) (name : String) :
    (graph.enroll type name).Covered := by
  intro id node found tag
  have types : (graph.enroll type name).types = graph.types := rfl
  rw [heldTags_of_types types]
  rw [node?_enroll] at found
  split at found
  · obtain rfl := Option.some.inj found
    rw [heldTags_of_empty graph fun _ => rfl]
    exact Nat.zero_le _
  · exact covered id node found tag

theorem leads_addTag_covered (covered : graph.Covered) (id : NodeId) (tag : TagId) :
    (addTag id tag).Leads graph (fun _ changed => changed.Covered) (fun _ => True) := by
  rw [addTag]
  refine Change.leads_ask_bind (fun node _ => ?_) fun _ _ => trivial
  split
  · exact Change.leads_pure covered
  · refine (leads_pushTag_altered id tag graph).imp (fun _ changed altered => ?_) fun _ _ => trivial
    refine covered.alter altered fun node found other => ?_
    rw [List.count_append]
    exact Nat.le_add_right_of_le (covered id node found other)

theorem leads_setState_covered (covered : graph.Covered) (id : NodeId) (state : Option StateId) :
    (setState id state).Leads graph (fun _ changed => changed.Covered) (fun _ => True) := by
  rw [setState, Change.leads_ofFunction]
  cases state.filter fun target => (graph.state? target).isNone with
  | some missing => trivial
  | none =>
      simp only
      cases graph.node? id with
      | none => trivial
      | some node =>
          simp only
          by_cases already : node.state = state
          · simp only [already, if_true]
            exact covered
          · simp only [already, if_false]
            have altered : Altered id (fun carried => carried) graph _ :=
              altered_adjustNode (fun node => { node with state })
                (moveMember graph.stateMembers id node.state state) graph.tagMembers fun _ _ => rfl
            exact covered.unaltered altered

/-! ## Removing a node -/

/-- A sound graph in which the flat lists cover the values. -/
structure Tallied (graph : Graph) : Prop where
  sound : graph.Sound
  covered : graph.Covered

/-- A change that keeps a graph sound, and is stopped before it changes anything. -/
theorem leads_tallied {α : Type} {change : Change Graph α} (tallied : graph.Tallied)
    (sounds : change.Leads graph (fun _ => Sound) (fun changed => changed = graph))
    (covers : change.Leads graph (fun _ => Covered) (fun _ => True)) :
    change.Leads graph (fun _ => Tallied) Tallied := by
  refine (sounds.and covers).imp (fun _ changed both => ⟨both.1, both.2⟩) ?_
  intro changed outcome
  obtain ⟨rfl, -⟩ := outcome
  exact tallied

theorem leads_setProperty_tallied (tallied : graph.Tallied) (id : NodeId) (property : PropertyId)
    {value : Value}
    (noMore : (graph.property? property).any Property.isTag = true →
      NoMore ((graph.valueAt? id property).getD .null) value) :
    (setProperty id property value).Leads graph (fun _ => Tallied) Tallied :=
  leads_tallied tallied
    ((leads_setProperty tallied.sound id property value).imp (fun _ _ outcome => outcome.1)
      fun _ stopped => stopped.1)
    (leads_setProperty_covered tallied.sound tallied.covered id property value noMore)

theorem keeps_clearProperties_tallied (id : NodeId) (properties : List PropertyId) :
    (clearProperties id properties).Keeps Tallied :=
  Change.keeps_forEach fun property _ tallied =>
    leads_setProperty_tallied tallied id property fun _ => noMore_null _

theorem keeps_dropReferences_tallied (id : NodeId) (property : PropertyId) (referrer : NodeId) :
    (dropReferences id property referrer).Keeps Tallied := by
  intro graph tallied
  rw [dropReferences]
  refine leads_nodeOrFault_bind (fun _ => tallied) fun node found => ?_
  refine leads_setProperty_tallied tallied referrer property fun _ => ?_
  rw [valueAt?_of_node? found]
  exact noMore_withoutReferences id (node.value? property)

theorem Covered.discard (covered : graph.Covered) (node : Node) : (graph.discard node).Covered := by
  intro id held found tag
  have types : (graph.discard node).types = graph.types := rfl
  rw [heldTags_of_types types]
  rw [node?_discard] at found
  split at found
  · cases found
  · exact covered id held found tag

theorem keeps_dropEntries_tallied (id : NodeId)
    (entries : List (PropertyId × Ascending NodeId)) :
    (Change.forEach entries fun (property, referrers) =>
      Change.forEach referrers.members fun referrer => dropReferences id property referrer).Keeps
        Tallied := by
  refine Change.keeps_forEach fun (property, referrers) => ?_
  exact Change.keeps_forEach fun referrer => keeps_dropReferences_tallied id property referrer

theorem leads_removeNode_covered (tallied : graph.Tallied) (id : NodeId) :
    (removeNode id).Leads graph (fun _ => Covered) (fun _ => True) := by
  have before {α : Type} {change : Change Graph α} (keeps : change.Keeps Tallied) (state : Graph)
      (tallied : state.Tallied) : change.Leads state (fun _ => Tallied) (fun _ => True) :=
    (keeps state tallied).imp (fun _ _ kept => kept) fun _ _ => trivial
  have asked : (Change.ask (·.nodeOrFault id) : Change Graph Node).Keeps Tallied :=
    Change.keeps_ask _
  rw [removeNode]
  refine Change.leads_bind _ (before asked graph tallied) fun node state tallied => ?_
  refine Change.leads_bind _ (before (keeps_clearProperties_tallied id _) state tallied) ?_
  intro _ state tallied
  refine Change.leads_bind _ (before asked state tallied) fun node state tallied => ?_
  refine Change.leads_bind _ (before (keeps_dropEntries_tallied id _) state tallied) ?_
  intro _ state tallied
  refine Change.leads_bind _ (before asked state tallied) fun node state tallied => ?_
  exact Change.leads_modify (tallied.covered.discard node)

/-! ## Removing a tag -/

theorem tags_withoutTags (gone : List TagId) (value : Value) :
    (withoutTags gone value).tags = value.tags.filter fun tag => !gone.contains tag := by
  cases value with
  | list items =>
      simp only [withoutTags, Value.tags, Value.items, List.filterMap_filter, List.filter_filterMap]
      refine List.filterMap_congr fun item _ => ?_
      cases item <;> simp [Value.tag?, Option.filter]
  | tag held =>
      have single : (Value.tag held).tags = [held] := rfl
      rw [single, withoutTags]
      by_cases isGone : gone.contains held = true
      · rw [if_pos isGone, List.filter_cons_of_neg (by simpa using isGone)]
        rfl
      · rw [if_neg isGone, List.filter_cons_of_pos (by simpa using isGone)]
        rfl
  | _ => rfl

/-- What is left of the values holds what is left of the tags. -/
theorem heldTags_stripped (graph : Graph) (gone : List TagId) (values : Table PropertyId Value) :
    graph.heldTags (values.filterMapValues fun value =>
        let left := withoutTags gone value
        if left.items.isEmpty then none else some left) =
      (graph.heldTags values).filter fun tag => !gone.contains tag := by
  have under (property : PropertyId) (value : Value) :
      graph.tagsUnder property (withoutTags gone value) =
        (graph.tagsUnder property value).filter fun tag => !gone.contains tag := by
    unfold tagsUnder
    split
    · exact tags_withoutTags gone value
    · rfl
  obtain ⟨entries⟩ := values
  unfold heldTags Table.filterMapValues
  induction entries with
  | nil => rfl
  | cons entry rest inductionHypothesis =>
      obtain ⟨property, value⟩ := entry
      simp only [List.filterMap_cons, List.flatMap_cons, List.filter_append, ← under,
        ← inductionHypothesis]
      by_cases empty : (withoutTags gone value).items.isEmpty = true
      · have nothing : graph.tagsUnder property (withoutTags gone value) = [] := by
          rw [tagsUnder, tags_of_items_isEmpty empty, ite_self]
        simp [empty, nothing]
      · simp [empty]

theorem Covered.withoutTree (covered : graph.Covered) (tag : TagId) :
    (graph.withoutTree tag).Covered := by
  intro id node found held
  rw [heldTags_of_types (withoutTree_frame graph tag).1]
  rw [node?_withoutTree] at found
  split at found
  · obtain ⟨was, isWas, rfl⟩ := Option.map_eq_some_iff.mp found
    simp only [stripTags, heldTags_stripped]
    let stays (tag' : TagId) : Bool := !(graph.tags.walk tag).contains tag'
    by_cases isLeft : stays held = true
    · have values : ((graph.heldTags was.properties).filter stays).count held = _ :=
        List.count_filter isLeft
      have list : (was.tags.filter stays).count held = _ := List.count_filter isLeft
      rw [values, list]
      exact covered id was isWas held
    · have nothing : ((graph.heldTags was.properties).filter stays).count held = 0 :=
        List.count_eq_zero.mpr fun member => isLeft (List.of_mem_filter member)
      rw [nothing]
      exact Nat.zero_le _
  · exact covered id node found held

end Graph

end LifecycleGraph
