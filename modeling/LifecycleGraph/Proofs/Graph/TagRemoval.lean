import LifecycleGraph.Proofs.Graph.Reference

/-!
# Removing a tag from a graph

The nodes that carry a tag or one below it are exactly those that the index has
under these tags.  So stripping those nodes leaves no node with a tag that is
gone, and nothing can stop the removal on its way.
-/

set_option autoImplicit false

namespace LifecycleGraph

namespace Graph

variable {graph : Graph}

theorem mem_carriers (graph : Graph) (tags : List TagId) (id : NodeId) :
    id ∈ graph.carriers tags ↔ ∃ tag ∈ tags, graph.tagMembers.hasMember tag id = true := by
  simp only [carriers, Ascending.mem_ofList, List.mem_flatMap, nodesWithTag,
    Table.mem_listed_iff]

theorem nodup_carriers (graph : Graph) (tags : List TagId) : (graph.carriers tags).Nodup :=
  (Ascending.sorted_ofList _).nodup

/-- The graph without a tag and all that stands below it. -/
def withoutTree (graph : Graph) (tag : TagId) : Graph :=
  let gone := graph.tags.walk tag
  let stripped := adjustAll (stripTags gone) (graph.carriers gone)
    { graph with tagMembers := gone.foldl Table.erase graph.tagMembers }
  { stripped with tags := (graph.tags.remove tag).2 }

theorem node?_withoutTree (graph : Graph) (tag : TagId) (id : NodeId) :
    (graph.withoutTree tag).node? id =
      if id ∈ graph.carriers (graph.tags.walk tag) then
        (graph.node? id).map (stripTags (graph.tags.walk tag))
      else graph.node? id :=
  node?_adjustAll (nodup_carriers graph _) _
    { graph with tagMembers := (graph.tags.walk tag).foldl Table.erase graph.tagMembers } id

theorem withoutTree_frame (graph : Graph) (tag : TagId) :
    (graph.withoutTree tag).types = graph.types ∧
      (graph.withoutTree tag).tags = (graph.tags.remove tag).2 ∧
      (graph.withoutTree tag).states = graph.states ∧
      (graph.withoutTree tag).typeMembers = graph.typeMembers ∧
      (graph.withoutTree tag).stateMembers = graph.stateMembers ∧
      (graph.withoutTree tag).tagMembers =
        (graph.tags.walk tag).foldl Table.erase graph.tagMembers := by
  have frame := adjustAll_frame (stripTags (graph.tags.walk tag))
    (graph.carriers (graph.tags.walk tag))
    { graph with tagMembers := (graph.tags.walk tag).foldl Table.erase graph.tagMembers }
  have types := congrArg Graph.types frame
  have states := congrArg Graph.states frame
  have typeMembers := congrArg Graph.typeMembers frame
  have stateMembers := congrArg Graph.stateMembers frame
  have tagMembers := congrArg Graph.tagMembers frame
  exact ⟨types, rfl, states, typeMembers, stateMembers, tagMembers⟩

/-- An entry without some tags. -/
def stripEntry (gone : List TagId) (entry : Node.Entry) : Node.Entry :=
  { entry with tags := entry.tags.filter fun tag => !gone.contains tag }

theorem entryOf?_withoutTree (listed : graph.Listed) (tag : TagId) (id : NodeId) :
    (graph.withoutTree tag).entryOf? id =
      (graph.entryOf? id).map (stripEntry (graph.tags.walk tag)) := by
  rw [entryOf?, node?_withoutTree]
  split
  · rw [entryOf?, Option.map_map, Option.map_map]
    rfl
  · rename_i untouched
    rw [entryOf?, Option.map_map]
    refine Option.map_congr fun node found => ?_
    have clean : node.tags.filter (fun held => !(graph.tags.walk tag).contains held) =
        node.tags := by
      refine List.filter_eq_self.mpr fun held member => ?_
      simp only [Bool.not_eq_true', List.contains_eq_mem, decide_eq_false_iff_not]
      intro isGone
      refine untouched ((mem_carriers graph _ id).mpr ⟨held, isGone, ?_⟩)
      exact (listed.tagged_iff found held).mpr member
    simp only [Function.comp_apply, Node.entry, stripEntry, clean]

theorem Listed.withoutTree (listed : graph.Listed) (tag : TagId) :
    (graph.withoutTree tag).Listed := by
  obtain ⟨types, tags, states, typeMembers, stateMembers, tagMembers⟩ :=
    withoutTree_frame graph tag
  have entryIff (id : NodeId) (holds : Node.Entry → Prop) :
      (∃ entry, (graph.withoutTree tag).entryOf? id = some entry ∧ holds entry) ↔
        ∃ entry, graph.entryOf? id = some entry ∧
          holds (stripEntry (graph.tags.walk tag) entry) := by
    rw [entryOf?_withoutTree listed]
    simp
  refine listed.relist ?_ typeMembers types ?_ ?_ ?_ ?_ ?_ ?_
  · rw [tags]
    exact listed.linked.remove tag
  · intro id
    rw [entryOf?_withoutTree listed, Option.map_map]
    rfl
  · intro state id
    rw [stateMembers, listed.inState state id, entryIff id fun entry => entry.state = some state]
    rfl
  · rw [stateMembers]
    exact listed.stateOrder
  · intro held id
    rw [tagMembers, Table.hasMember_eraseAll, listed.tagged held id,
      entryIff id fun entry => held ∈ entry.tags]
    simp only [stripEntry, List.mem_filter, Bool.not_eq_true', List.contains_eq_mem,
      decide_eq_false_iff_not]
    constructor
    · intro given
      obtain ⟨⟨entry, found, member⟩, stays⟩ := given
      exact ⟨entry, found, member, stays⟩
    · intro given
      obtain ⟨entry, found, member, stays⟩ := given
      exact ⟨⟨entry, found, member⟩, stays⟩
  · rw [tagMembers]
    exact listed.tagOrder.eraseAll _
  · intro id entry held found member
    rw [entryOf?_withoutTree listed] at found
    obtain ⟨before, isBefore, rfl⟩ := Option.map_eq_some_iff.mp found
    obtain ⟨wasHeld, stays⟩ := List.mem_filter.mp member
    rw [tags]
    refine (Forest.contains_remove listed.linked.rooted tag held).mpr
      ⟨listed.carried isBefore wasHeld, ?_⟩
    simpa using stays

/-- The removal of a tag is never stopped. -/
theorem leads_removeTagTree (listed : graph.Listed) (tag : TagId) :
    (removeTagTree tag).Leads graph
      (fun gone changed => gone = graph.tags.walk tag ∧ changed = graph.withoutTree tag)
      (fun _ => False) := by
  let gone := graph.tags.walk tag
  let start : Graph := { graph with tagMembers := gone.foldl Table.erase graph.tagMembers }
  have strips : (Change.forEach (graph.carriers gone) fun id => do
      let _ ← Change.ask (·.nodeOrFault id)
      modify (·.adjustNode id (stripTags gone))).Leads start
        (fun _ changed => changed = adjustAll (stripTags gone) (graph.carriers gone) start)
        (fun _ => False) := by
    refine Change.leads_forEach_progress
      (fun done state => state = adjustAll (stripTags gone) done start) rfl ?_
    intro done id rest whole state same
    obtain rfl := same
    have nodup := nodup_carriers graph gone
    rw [whole] at nodup
    have carrier : id ∈ graph.carriers gone := by simp [whole]
    obtain ⟨held, -, listedUnder⟩ := (mem_carriers graph gone id).mp carrier
    obtain ⟨entry, isEntry, -⟩ := (listed.tagged held id).mp listedUnder
    obtain ⟨node, found, -⟩ := node?_of_entryOf? isEntry
    have untouched : id ∉ done := fun isDone =>
      (List.disjoint_of_nodup_append nodup) isDone (List.mem_cons_self ..)
    have stillThere : (adjustAll (stripTags gone) done start).node? id = some node := by
      rw [node?_adjustAll (List.Nodup.of_append_left nodup), if_neg untouched]
      exact found
    refine Change.leads_bind
      (fun _ changed => changed = adjustAll (stripTags gone) done start) (Change.leads_ask ?_ ?_) ?_
    · exact fun _ _ => rfl
    · intro fault refused
      rw [(nodeOrFault_eq_ok_iff id node).mpr stillThere] at refused
      cases refused
    · intro _ changed same
      obtain rfl := same
      refine Change.leads_modify ?_
      simp only [adjustAll, List.foldl_append, List.foldl_cons, List.foldl_nil]
  rw [removeTagTree]
  refine Change.leads_get_bind ?_
  refine Change.leads_bind (fun _ changed => changed = start) (Change.leads_modify rfl) ?_
  intro _ changed same
  obtain rfl := same
  refine Change.leads_bind _ strips ?_
  intro _ changed same
  obtain rfl := same
  refine Change.leads_bind (fun _ changed => changed = graph.withoutTree tag)
    (Change.leads_modify ?_) ?_
  · have same := congrArg Graph.tags
      (adjustAll_frame (stripTags gone) (graph.carriers gone) start)
    rw [same]
    rfl
  · intro _ changed same
    obtain rfl := same
    exact Change.leads_pure ⟨rfl, rfl⟩

theorem keeps_removeTagTree (tag : TagId) : (removeTagTree tag).Keeps Listed := by
  intro graph listed
  refine (leads_removeTagTree listed tag).imp ?_ fun _ => False.elim
  intro gone changed outcome
  obtain ⟨-, rfl⟩ := outcome
  exact listed.withoutTree tag

/-! ## What nodes hold without the tags -/

theorem mem_tags_of_withoutTags {gone : List TagId} {value : Value} {tag : TagId}
    (member : tag ∈ (withoutTags gone value).tags) : tag ∈ value.tags := by
  rw [Value.mem_tags_iff] at *
  cases value with
  | list items => exact List.mem_of_mem_filter member
  | tag held =>
      simp only [withoutTags] at member
      by_cases isGone : gone.contains held = true
      · rw [if_pos isGone] at member
        cases member
      · rwa [if_neg isGone] at member
  | _ => exact member

theorem withoutTags_of_spared {gone : List TagId} {value : Value}
    (spared : ∀ tag ∈ value.tags, tag ∉ gone) : withoutTags gone value = value := by
  cases value with
  | list items =>
      refine congrArg Value.list (List.filter_eq_self.mpr fun item member => ?_)
      cases isTag : item.tag? with
      | none => rfl
      | some tag =>
          have stays := spared tag (List.mem_filterMap.mpr ⟨item, member, isTag⟩)
          simp [stays]
  | tag held => exact if_neg (by simpa using spared held (List.mem_singleton.mpr rfl))
  | _ => rfl

/-- What is left of a value, if anything is. -/
def leftOf (gone : List TagId) (value : Value) : Option Value :=
  if (withoutTags gone value).items.isEmpty then none else some (withoutTags gone value)

theorem leftOf_eq_some_iff (gone : List TagId) (value left : Value) :
    leftOf gone value = some left ↔ left = withoutTags gone value ∧ left.items ≠ [] := by
  rw [leftOf]
  split
  · rename_i empty
    refine iff_of_false (nomatch ·) fun both => both.2 ?_
    rw [both.1, List.isEmpty_iff.mp empty]
  · rename_i notEmpty
    rw [Option.some.injEq, eq_comm, iff_self_and]
    rintro rfl
    simpa using notEmpty

theorem leftOf_of_spared {gone : List TagId} {value : Value} (filled : value.items ≠ [])
    (spared : ∀ tag ∈ value.tags, tag ∉ gone) : leftOf gone value = some value :=
  (leftOf_eq_some_iff gone value value).mpr ⟨(withoutTags_of_spared spared).symm, filled⟩

theorem valueAt?_withoutTree {id : NodeId}
    (sorted : ∀ node, graph.node? id = some node → node.properties.Sorted) (tag : TagId)
    (property : PropertyId) :
    (graph.withoutTree tag).valueAt? id property =
      if id ∈ graph.carriers (graph.tags.walk tag) then
        (graph.valueAt? id property).bind (leftOf (graph.tags.walk tag))
      else graph.valueAt? id property := by
  rw [valueAt?, node?_withoutTree]
  split
  · cases found : graph.node? id with
    | none => simp [valueAt?, found]
    | some node =>
        rw [Option.map_some, Option.bind_some, valueAt?_of_node? found]
        exact (sorted node found).find?_filterMapValues _ property
  · rfl

/-- What is accepted without some tags is what is left of what is accepted. -/
theorem Validated.withoutTags {declared : Property} {value : Value}
    (validated : graph.Validated declared value value) (gone : List TagId) :
    graph.Validated declared (withoutTags gone value) (withoutTags gone value) := by
  cases value with
  | list items =>
      cases validated with
      | list list fits =>
          refine .list list (List.forall₂_same.mpr fun item member => ?_)
          exact List.forall₂_same.mp fits item (List.mem_of_mem_filter member)
      | wrapped _ _ notList => exact absurd rfl (notList _)
      | single single _ anyList _ =>
          have isAny := anyList _ rfl
          exact .single single (fun same => by cases same) (fun _ _ => isAny) (by rw [isAny]; rfl)
  | tag tag =>
      rw [Graph.withoutTags]
      split
      · exact .null
      · exact validated
  | _ => exact validated

theorem Fits.withoutTags {declared : Property} {value : Value} (fits : graph.Fits declared value)
    (gone : List TagId) : graph.Fits declared (withoutTags gone value) where
  accepted := by
    obtain ⟨past, validated⟩ := fits.accepted
    exact ⟨past, validated.withoutTags gone⟩
  nodes := by
    intro isNode
    have validated := fits.nodes isNode
    rw [withoutTags_of_spared (by simp [validated.tags_of_isNode isNode])]
    exact validated
  tags := fun ns isType tag member => fits.tags ns isType tag (mem_tags_of_withoutTags member)

/-- What is left of a value is not empty, and is the value or the value without tags. -/
theorem Referenced.left_of_withoutTree (referenced : graph.Referenced) {tag : TagId}
    {id : NodeId} {property : PropertyId} {left : Value}
    (isLeft : (graph.withoutTree tag).valueAt? id property = some left) :
    left.items ≠ [] ∧ ∃ value, graph.valueAt? id property = some value ∧
      (left = value ∨ left = withoutTags (graph.tags.walk tag) value) := by
  rw [valueAt?_withoutTree fun _ found => (referenced.sorted found).1] at isLeft
  split at isLeft
  · obtain ⟨value, isValue, isLeft⟩ := Option.bind_eq_some_iff.mp isLeft
    obtain ⟨rfl, items⟩ := (leftOf_eq_some_iff _ value left).mp isLeft
    exact ⟨items, value, isValue, .inr rfl⟩
  · obtain ⟨_, -, items, -⟩ := referenced.held isLeft
    exact ⟨items, left, isLeft, .inl rfl⟩

/-- Nodes that are held stay held. -/
theorem Referenced.nodes_withoutTree (referenced : graph.Referenced) (tag : TagId)
    {id : NodeId} {property : PropertyId} {declared : Property}
    (isDeclared : graph.property? property = some declared) (isNode : declared.isNode = true) :
    (graph.withoutTree tag).valueAt? id property = graph.valueAt? id property := by
  rw [valueAt?_withoutTree fun _ found => (referenced.sorted found).1]
  split
  · cases isValue : graph.valueAt? id property with
    | none => rfl
    | some value =>
        obtain ⟨again, ⟨isAgain, -⟩, items, fits⟩ := referenced.held isValue
        rw [isDeclared] at isAgain
        cases isAgain
        have noTags := (fits.nodes isNode).tags_of_isNode isNode
        rw [Option.bind_some, leftOf_of_spared items (by simp [noTags])]
  · rfl

theorem typeOf?_withoutTree (graph : Graph) (tag : TagId) (id : NodeId) :
    (graph.withoutTree tag).typeOf? id = graph.typeOf? id := by
  rw [typeOf?, node?_withoutTree]
  split
  · rw [Option.map_map]
    rfl
  · rfl

theorem refersBack_withoutTree (graph : Graph) (tag : TagId) (target : NodeId)
    (property : PropertyId) (source : NodeId) :
    (graph.withoutTree tag).refersBack target property source =
      graph.refersBack target property source := by
  rw [refersBack, node?_withoutTree]
  split
  · rw [Option.any_map]
    rfl
  · rfl

theorem Referenced.withoutTree (listed : graph.Listed) (referenced : graph.Referenced)
    (tag : TagId) : (graph.withoutTree tag).Referenced := by
  obtain ⟨types, tags, -⟩ := withoutTree_frame graph tag
  have declares : graph.Declares (graph.withoutTree tag) := .of_types types
  have follows : graph.tags.Follows (graph.withoutTree tag).tags := by
    rw [tags]
    exact Forest.follows_remove listed.linked tag
  refine ⟨?_, ?_, ?_⟩
  · intro id node found
    rw [node?_withoutTree] at found
    split at found
    · obtain ⟨was, isWas, rfl⟩ := Option.map_eq_some_iff.mp found
      obtain ⟨properties, referrers⟩ := referenced.sorted isWas
      exact ⟨properties.filterMapValues _, referrers⟩
    · exact referenced.sorted found
  · intro id property left isLeft
    obtain ⟨items, value, isValue, isStripped⟩ := referenced.left_of_withoutTree isLeft
    obtain ⟨declared, offers, -, fits⟩ := referenced.held isValue
    have fitsLeft : graph.Fits declared left := by
      rcases isStripped with rfl | rfl
      · exact fits
      · exact fits.withoutTags _
    exact ⟨declared, offers.move listed declares (typeOf?_withoutTree graph tag id), items,
      fitsLeft.move listed declares follows fun _ target _ => typeOf?_withoutTree graph tag target⟩
  · intro target property source
    rw [refersBack_withoutTree, referenced.mirrored]
    unfold Refers
    rw [property?_of_types types]
    constructor
    · intro given
      obtain ⟨declared, value, isDeclared, isNode, isValue, member⟩ := given
      exact ⟨declared, value, isDeclared, isNode,
        (referenced.nodes_withoutTree tag isDeclared isNode).trans isValue, member⟩
    · intro given
      obtain ⟨declared, value, isDeclared, isNode, isValue, member⟩ := given
      rw [referenced.nodes_withoutTree tag isDeclared isNode] at isValue
      exact ⟨declared, value, isDeclared, isNode, isValue, member⟩

theorem Sound.withoutTree (sound : graph.Sound) (tag : TagId) : (graph.withoutTree tag).Sound :=
  ⟨sound.listed.withoutTree tag, sound.referenced.withoutTree sound.listed tag⟩

end Graph

end LifecycleGraph
