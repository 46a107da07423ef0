import LifecycleGraph.Proofs.Graph.Reference

/-!
# Setting a value

A value that fits is held, the nodes in it are told, and no other value
changes.  Setting is stopped before anything is changed: by the checks, or by
the first tag, where all tags of the old and of the new value are gone.
-/

set_option autoImplicit false

namespace LifecycleGraph

namespace Graph

variable {graph : Graph} {id : NodeId} {property : PropertyId} {declared : Property}

/-- The second graph has another value for one property of one node. -/
structure Assigned (id : NodeId) (property : PropertyId) (value : Value) (old new : Graph) :
    Prop extends SameNodes old new where
  valueAt? : ∀ other held, new.valueAt? other held =
    if other = id ∧ held = property then if value.items.isEmpty then none else some value
    else old.valueAt? other held

/-! ## Telling nodes and tags -/

/-- A node with its referrers as they are after a new value. -/
def relinked (id : NodeId) (property : PropertyId) (old new : Value) (target : NodeId)
    (node : Node) : Node :=
  let left :=
    if target ∈ old.nodes ∧ target ∉ new.nodes then withoutReferrer id property node else node
  if target ∈ new.nodes ∧ target ∉ old.nodes then withReferrer id property left else left

theorem node?_relink (old new : Value) (target : NodeId) :
    (graph.relink id property old new).node? target =
      (graph.node? target).map (relinked id property old new target) := by
  have unlinks : ((Ascending.ofList old.nodes).difference
      (Ascending.ofList new.nodes)).members.Nodup :=
    ((Ascending.sorted_ofList _).difference _).nodup
  have links : ((Ascending.ofList new.nodes).difference
      (Ascending.ofList old.nodes)).members.Nodup :=
    ((Ascending.sorted_ofList _).difference _).nodup
  rw [relink_eq, node?_adjustAll links, node?_adjustAll unlinks]
  simp only [Ascending.mem_difference, Ascending.mem_ofList]
  cases graph.node? target with
  | none => simp
  | some node =>
      by_cases leaves : target ∈ old.nodes ∧ target ∉ new.nodes <;>
        by_cases comes : target ∈ new.nodes ∧ target ∉ old.nodes <;> simp [relinked, leaves, comes]

theorem hasMember_relinked (old new : Value) (target : NodeId) (node : Node) (held : PropertyId)
    (source : NodeId) :
    (relinked id property old new target node).referrers.hasMember held source = true ↔
      node.referrers.hasMember held source = true ∧
          ¬ ((target ∈ old.nodes ∧ target ∉ new.nodes) ∧ held = property ∧ source = id) ∨
        (target ∈ new.nodes ∧ target ∉ old.nodes) ∧ held = property ∧ source = id := by
  by_cases leaves : target ∈ old.nodes ∧ target ∉ new.nodes <;>
    by_cases comes : target ∈ new.nodes ∧ target ∉ old.nodes <;>
    simp [relinked, leaves, comes, withReferrer, withoutReferrer, Table.hasMember_addMember,
      Table.hasMember_dropMember, eq_comm (a := property)]

theorem content_relinked (old new : Value) (target : NodeId) (node : Node) :
    (relinked id property old new target node).type = node.type ∧
      (relinked id property old new target node).properties = node.properties := by
  rw [relinked]
  split <;> split <;> exact ⟨rfl, rfl⟩

theorem sorted_relinked (old new : Value) (target : NodeId) {node : Node}
    (sorted : node.referrers.Sorted) :
    (relinked id property old new target node).referrers.Sorted := by
  unfold relinked withReferrer withoutReferrer
  split <;> split <;>
    simp only [sorted, sorted.addMember, sorted.dropMember, Table.Sorted.addMember]

/-- What is changed before a new value is held: the nodes that it holds know it, and
each of its tags is there or was in the old value already. -/
structure Followed (id : NodeId) (property : PropertyId) (declared : Property) (held : Value)
    (old new : Graph) : Prop extends SameNodes old new where
  listed : new.Listed
  valueAt? : ∀ other held, new.valueAt? other held = old.valueAt? other held
  sorted : ∀ {id node}, new.node? id = some node → node.properties.Sorted ∧ node.referrers.Sorted
  refersBack : ∀ target other source, new.refersBack target other source = true ↔
    if other = property ∧ source = id ∧ declared.isNode = true then target ∈ held.nodes
    else old.refersBack target other source = true
  settled : ∀ ns, declared.dataType = .tag ns → ∀ tag ∈ held.tags,
    old.tags.contains tag = true ∨ tag ∈ ((old.valueAt? id property).getD .null).tags

theorem Followed.of_alike {changed : Graph} {held : Value} (alike : graph.Alike changed)
    (sound : changed.Sound) (notNode : declared.isNode = false)
    (settled : ∀ ns, declared.dataType = .tag ns → ∀ tag ∈ held.tags,
      graph.tags.contains tag = true ∨ tag ∈ ((graph.valueAt? id property).getD .null).tags) :
    Followed id property declared held graph changed where
  toSameNodes := alike.toSameNodes
  listed := sound.listed
  valueAt? := alike.holds.valueAt?
  sorted := sound.referenced.sorted
  refersBack := by
    intro target other source
    rw [if_neg (by simp [notNode]), alike.holds.refersBack]
  settled := settled

theorem followed_relink (sound : graph.Sound)
    (isDeclared : graph.property? property = some declared) (isNode : declared.isNode = true)
    {held : Value} (validated : graph.Validated declared held held) :
    Followed id property declared held graph
      (graph.relink id property ((graph.valueAt? id property).getD .null) held) := by
  let old := (graph.valueAt? id property).getD .null
  have frame := relink_eq graph id property old held
  have content (other : NodeId) : (graph.relink id property old held).node? other =
      (graph.node? other).map (relinked id property old held other) := node?_relink old held other
  refine {
    listed := sound.listed.relink id property old held
    types := ?_
    tags := ?_
    states := ?_
    typeOf? := ?_
    valueAt? := ?_
    sorted := ?_
    refersBack := ?_
    settled := ?_ }
  · rw [frame, adjustAll_frame, adjustAll_frame]
  · rw [frame, adjustAll_frame, adjustAll_frame]
  · rw [frame, adjustAll_frame, adjustAll_frame]
  · intro other
    rw [typeOf?, content, Option.map_map, typeOf?]
    refine Option.map_congr fun node _ => ?_
    exact (content_relinked old held other node).1
  · intro other property'
    rw [valueAt?, content, Option.bind_map, valueAt?]
    refine Option.bind_congr fun node _ => ?_
    exact congrArg (·.find? property') (content_relinked old held other node).2
  · intro other node found
    rw [content] at found
    obtain ⟨was, isWas, rfl⟩ := Option.map_eq_some_iff.mp found
    obtain ⟨properties, referrers⟩ := sound.referenced.sorted isWas
    rw [(content_relinked old held other was).2]
    exact ⟨properties, sorted_relinked old held other referrers⟩
  · intro target other source
    rw [refersBack, content, Option.any_map]
    by_cases isIt : other = property ∧ source = id
    · obtain ⟨rfl, rfl⟩ := isIt
      have before : graph.refersBack target other source = true ↔ target ∈ old.nodes :=
        sound.referenced.refersBack_iff isDeclared isNode target source
      rw [refersBack] at before
      rw [if_pos ⟨rfl, rfl, isNode⟩]
      cases found : graph.node? target with
      | none =>
          refine iff_of_false (by simp) fun member => ?_
          obtain ⟨type, isType⟩ := validated.typeOf?_of_mem_nodes isNode member
          rw [typeOf?, found] at isType
          cases isType
      | some node =>
          rw [found, Option.any_some] at before
          rw [Option.any_some, hasMember_relinked, before]
          tauto
    · rw [if_neg fun both => isIt ⟨both.1, both.2.1⟩, refersBack]
      cases graph.node? target with
      | none => rfl
      | some node =>
          rw [Option.any_some, Option.any_some, hasMember_relinked]
          tauto
  · intro ns isType
    rw [Property.isNode, isType] at isNode
    cases isNode

/-! ## Taking tags and giving them -/

theorem leads_retag_present (sound : graph.Sound) (live : (graph.node? id).isSome = true)
    {old new : Value} (present : ∀ tag ∈ new.tags, graph.tags.contains tag = true) :
    (retag id old new).Leads graph (fun _ changed => changed.Sound ∧ graph.Alike changed)
      (fun _ => False) := by
  have stillLive {state : Graph} (alike : graph.Alike state) : state.node? id ≠ none := by
    intro gone
    rw [← alike.isSome_node?, gone] at live
    cases live
  rw [retag]
  refine Change.leads_bind (fun _ changed => changed.Sound ∧ graph.Alike changed)
    (Change.leads_forEach _ ⟨sound, .refl graph⟩ fun tag _ state reached => ?_) ?_
  · obtain ⟨stateSound, alike⟩ := reached
    refine Change.leads_bind (fun _ changed => changed.Sound ∧ graph.Alike changed)
      ((leads_removeTag stateSound id tag).imp ?_ ?_) fun _ _ both => Change.leads_pure both
    · intro _ changed outcome
      obtain ⟨changedSound, further, -⟩ := outcome
      exact ⟨changedSound, alike.trans further⟩
    · intro changed outcome
      exact stillLive alike outcome.2
  · intro _ state reached
    refine Change.leads_forEach (fun changed => changed.Sound ∧ graph.Alike changed) reached ?_
    intro tag member state reached
    obtain ⟨stateSound, alike⟩ := reached
    refine (leads_pushTag stateSound id tag).imp ?_ ?_
    · intro _ changed outcome
      obtain ⟨changedSound, further, -⟩ := outcome
      exact ⟨changedSound, alike.trans further⟩
    · intro changed outcome
      obtain ⟨-, gone | gone⟩ := outcome
      · rw [alike.tags, present tag (List.mem_of_mem_filter member)] at gone
        cases gone
      · exact stillLive alike gone

theorem leads_retag_gone (sound : graph.Sound) (live : (graph.node? id).isSome = true)
    {old new : Value} (newGone : ∀ tag ∈ new.tags, graph.tags.contains tag = false)
    (oldGone : ∀ tag ∈ old.tags, graph.tags.contains tag = false) :
    (retag id old new).Leads graph (fun _ changed => changed = graph ∧ new.tags ⊆ old.tags)
      (fun changed => changed = graph ∧ ∃ tag, tag ∈ new.tags) := by
  have isThere : graph.node? id ≠ none := Option.isSome_iff_ne_none.mp live
  rw [retag]
  refine Change.leads_bind (fun _ changed => changed = graph)
    (Change.leads_forEach _ rfl fun tag member state reached => ?_) ?_
  · -- A tag that is gone is on no list, so that taking it away changes nothing.
    rw [reached]
    refine Change.leads_bind (fun _ changed => changed = graph)
      ((leads_removeTag sound id tag).imp ?_ ?_) fun _ _ same => Change.leads_pure same
    · intro _ changed outcome
      obtain ⟨-, -, untouched⟩ := outcome
      exact untouched (oldGone tag (List.mem_of_mem_filter member))
    · intro changed outcome
      exact absurd outcome.2 isThere
  · intro _ state same
    rw [same]
    cases given : new.tags.filter fun tag => !old.tags.contains tag with
    | nil =>
        refine Change.leads_pure ⟨rfl, fun tag member => ?_⟩
        simpa using List.filter_eq_nil_iff.mp given tag member
    | cons tag rest =>
        -- The first of the new tags is refused, before anything is changed.
        have member : tag ∈ new.tags := by
          have inFilter : tag ∈ new.tags.filter fun tag => !old.tags.contains tag := by
            rw [given]
            exact List.mem_cons_self ..
          exact List.mem_of_mem_filter inFilter
        refine Change.leads_bind (fun _ _ => False)
          ((leads_pushTag sound id tag).imp ?_ ?_) fun _ _ never => never.elim
        · intro _ changed outcome
          obtain ⟨-, -, present⟩ := outcome
          rw [newGone tag member] at present
          cases present
        · intro changed outcome
          exact ⟨outcome.1, tag, member⟩

/-- Where the new tags are all there, or all tags of both values are gone, giving tags
to a node either succeeds or stops before anything is changed. -/
theorem leads_retag (sound : graph.Sound) (live : (graph.node? id).isSome = true) {old new : Value}
    (tags : (∀ tag ∈ new.tags, graph.tags.contains tag = true) ∨
      (∀ tag ∈ new.tags, graph.tags.contains tag = false) ∧
        ∀ tag ∈ old.tags, graph.tags.contains tag = false) :
    (retag id old new).Leads graph
      (fun _ changed => changed.Sound ∧ graph.Alike changed ∧
        ∀ tag ∈ new.tags, graph.tags.contains tag = true ∨ tag ∈ old.tags)
      (fun changed => changed = graph ∧ ∃ tag ∈ new.tags, graph.tags.contains tag = false) := by
  rcases tags with present | ⟨newGone, oldGone⟩
  · refine (leads_retag_present sound live present).imp ?_ fun _ never => never.elim
    intro _ changed outcome
    exact ⟨outcome.1, outcome.2, fun tag member => .inl (present tag member)⟩
  · refine (leads_retag_gone sound live newGone oldGone).imp ?_ ?_
    · intro _ changed outcome
      obtain ⟨rfl, kept⟩ := outcome
      exact ⟨sound, .refl changed, fun tag member => .inr (kept member)⟩
    · intro changed outcome
      obtain ⟨unchanged, tag, member⟩ := outcome
      exact ⟨unchanged, tag, member, newGone tag member⟩

/-- The tags of a value that a tag property accepts are all there, unless the namespace of
the property is gone; then so are all of them and all of the old ones. -/
theorem present_or_gone (linked : graph.tags.Linked) {ns : Option TagId}
    (isType : declared.dataType = .tag ns) {old held : Value} (fits : graph.Fits declared old)
    (validated : graph.Validated declared held held) :
    (∀ tag ∈ held.tags, graph.tags.contains tag = true) ∨
      (∀ tag ∈ held.tags, graph.tags.contains tag = false) ∧
        ∀ tag ∈ old.tags, graph.tags.contains tag = false := by
  cases ns with
  | none => exact .inl fun tag member => validated.admitsTag isType member
  | some ns =>
      by_cases present : graph.tags.contains ns = true
      · refine .inl fun tag member => ?_
        have isa : graph.tags.isa tag ns = true := validated.admitsTag isType member
        by_contra gone
        have same := linked.rooted.eq_of_isa_of_gone (by simpa using gone) isa
        rw [same] at gone
        exact gone present
      · have below {tag : TagId} (isa : graph.tags.isa tag ns = true) :
            graph.tags.contains tag = false := by
          by_contra there
          exact present (linked.rooted.contains_of_isa (by simpa using there) isa)
        refine .inr ⟨fun tag member => below (validated.admitsTag isType member), ?_⟩
        intro tag member
        by_contra there
        have isThere : graph.tags.contains tag = true := by simpa using there
        rw [below ((fits.tags _ isType tag member).2 isThere)] at isThere
        cases isThere

/-! ## Holding the value -/

theorem find?_hold (value : Value) (node : Node) (other : PropertyId) :
    (hold property value node).properties.find? other =
      if other = property then if value.items.isEmpty then none else some value
      else node.properties.find? other := by
  rw [hold]
  by_cases empty : value.items.isEmpty = true
  · simp only [empty, if_true, Table.find?_erase, eq_comm (a := property)]
  · simp only [empty, Bool.false_eq_true, if_false, Table.find?_insert, eq_comm (a := property)]

theorem sorted_hold (value : Value) {node : Node} (sorted : node.properties.Sorted) :
    (hold property value node).properties.Sorted := by
  rw [hold]
  by_cases empty : value.items.isEmpty = true
  · simp only [empty, if_true]
    exact sorted.erase property
  · simp only [empty, Bool.false_eq_true, if_false]
    exact sorted.insert property value

section Followed

variable {held : Value} {mid : Graph}

theorem node?_adjustHold (other : NodeId) :
    (mid.adjustNode id (hold property held)).node? other =
      (mid.node? other).map fun node => if other = id then hold property held node else node := by
  rw [node?_adjustNode]
  split <;> simp

theorem Followed.assigned (followed : Followed id property declared held graph mid)
    (offers : graph.Offers id property declared) :
    Assigned id property held graph (mid.adjustNode id (hold property held)) where
  types := followed.types
  tags := followed.tags
  states := followed.states
  typeOf? := by
    intro other
    rw [← followed.typeOf?, Graph.typeOf?, node?_adjustHold, Option.map_map, Graph.typeOf?]
    refine Option.map_congr fun node _ => ?_
    rw [Function.comp_apply]
    split <;> rfl
  valueAt? := by
    intro other asked
    by_cases isId : other = id
    · obtain ⟨-, own, isOwn, -⟩ := offers
      obtain ⟨node, found, -⟩ := (typeOf?_eq_some_iff id own).mp
        ((followed.typeOf? id).trans isOwn)
      have before := followed.valueAt? id asked
      rw [valueAt?_of_node? found, Node.value?] at before
      rw [Graph.valueAt?, node?_adjustHold, isId, found, Option.map_some, Option.bind_some,
        if_pos rfl, Node.value?, find?_hold, ← before]
      simp
    · rw [if_neg fun both => isId both.1, ← followed.valueAt?, Graph.valueAt?, node?_adjustHold,
        Graph.valueAt?]
      simp [isId]

/-- The tags that are held were all given at some time. -/
theorem Followed.tag_lt (sound : graph.Sound)
    (followed : Followed id property declared held graph mid)
    (isDeclared : graph.property? property = some declared) {ns : Option TagId}
    (isType : declared.dataType = .tag ns) {tag : TagId} (member : tag ∈ held.tags) :
    tag.index < graph.tags.arena.next := by
  rcases followed.settled ns isType tag member with present | known
  · obtain ⟨held, found⟩ := (Forest.contains_iff tag).mp present
    exact Forest.lt_next_of_find? found
  · cases isValue : graph.valueAt? id property with
    | none =>
        rw [isValue, Option.getD_none] at known
        cases known
    | some value =>
        rw [isValue, Option.getD_some] at known
        obtain ⟨before, ⟨isBefore, -⟩, -, fits⟩ := sound.referenced.held isValue
        rw [isDeclared] at isBefore
        cases isBefore
        exact (fits.tags ns isType tag known).1

theorem Followed.holds (sound : graph.Sound)
    (followed : Followed id property declared held graph mid)
    (offers : graph.Offers id property declared)
    (validated : graph.Validated declared held held) {new : Graph}
    (assigned : Assigned id property held graph new) {other : NodeId} {asked : PropertyId}
    {value : Value} (isValue : new.valueAt? other asked = some value) :
    new.Holds other asked value := by
  have follows : graph.tags.Follows new.tags := by
    rw [assigned.tags]
    exact Forest.follows_self _
  have held : graph.Holds other asked value := by
    rw [assigned.valueAt?] at isValue
    split at isValue
    · rename_i isIt
      obtain ⟨rfl, rfl⟩ := isIt
      split at isValue
      · cases isValue
      · rename_i notEmpty
        cases isValue
        have fits : graph.Fits declared held :=
          ⟨⟨graph, validated⟩, fun _ => validated, fun ns isType tag member =>
            ⟨followed.tag_lt sound offers.1 isType member,
              fun _ => validated.admitsTag isType member⟩⟩
        exact ⟨declared, offers, by simpa using notEmpty, fits⟩
    · exact sound.referenced.held isValue
  exact held.move sound.listed (.of_types assigned.types) follows (assigned.typeOf? other)
    fun _ _ _ target _ => assigned.typeOf? target

theorem Followed.mirrored (sound : graph.Sound)
    (followed : Followed id property declared held graph mid)
    (isDeclared : graph.property? property = some declared) {new : Graph}
    (assigned : Assigned id property held graph new) (target : NodeId) (asked : PropertyId)
    (source : NodeId) :
    mid.refersBack target asked source = true ↔ new.Refers source asked target := by
  have sameProperty : new.property? asked = graph.property? asked := by
    rw [property?_of_types assigned.types]
  rw [followed.refersBack]
  by_cases isIt : asked = property ∧ source = id
  · obtain ⟨rfl, rfl⟩ := isIt
    have sameDeclared {other : Property} (isOther : new.property? asked = some other) :
        other = declared := by
      rw [sameProperty, isDeclared] at isOther
      exact (Option.some.inj isOther).symm
    by_cases isNode : declared.isNode = true
    · rw [if_pos ⟨rfl, rfl, isNode⟩]
      constructor
      · intro member
        refine ⟨declared, held, sameProperty.trans isDeclared, isNode, ?_, member⟩
        rw [assigned.valueAt?, if_pos ⟨rfl, rfl⟩, if_neg]
        intro empty
        rw [Value.mem_nodes_iff, List.isEmpty_iff.mp empty] at member
        cases member
      · intro given
        obtain ⟨_, value, -, -, isValue, member⟩ := given
        rw [assigned.valueAt?, if_pos ⟨rfl, rfl⟩] at isValue
        split at isValue
        · cases isValue
        · cases isValue
          exact member
    · rw [if_neg fun both => isNode both.2.2, sound.referenced.mirrored]
      refine iff_of_false ?_ ?_
      · intro given
        obtain ⟨other, _, isOther, otherNode, -⟩ := given
        rw [sameDeclared (sameProperty.trans isOther)] at otherNode
        exact isNode otherNode
      · intro given
        obtain ⟨other, _, isOther, otherNode, -⟩ := given
        rw [sameDeclared isOther] at otherNode
        exact isNode otherNode
  · have sameValue : new.valueAt? source asked = graph.valueAt? source asked := by
      rw [assigned.valueAt?, if_neg fun both => isIt ⟨both.2, both.1⟩]
    rw [if_neg fun both => isIt ⟨both.1, both.2.1⟩, sound.referenced.mirrored]
    unfold Refers
    rw [sameValue, sameProperty]

theorem Followed.sound (sound : graph.Sound)
    (followed : Followed id property declared held graph mid)
    (offers : graph.Offers id property declared) (validated : graph.Validated declared held held) :
    (mid.adjustNode id (hold property held)).Sound where
  listed := followed.listed.adjustContent id fun _ => rfl
  referenced := {
    sorted := by
      intro other node found
      rw [node?_adjustHold] at found
      obtain ⟨was, isWas, rfl⟩ := Option.map_eq_some_iff.mp found
      obtain ⟨properties, referrers⟩ := followed.sorted isWas
      split
      · exact ⟨sorted_hold held properties, referrers⟩
      · exact ⟨properties, referrers⟩
    held := fun isValue =>
      followed.holds sound offers validated (followed.assigned offers) isValue
    mirrored := by
      intro target asked source
      rw [← followed.mirrored sound offers.1 (followed.assigned offers), Graph.refersBack,
        node?_adjustHold, Option.any_map, Graph.refersBack]
      refine Eq.to_iff (congrArg (· = true) (congrArg (Option.any · _) (funext fun node => ?_)))
      by_cases isId : target = id <;> simp [isId, hold] }

end Followed

/-! ## The whole change -/

theorem declaration_eq_ok_iff (node : Node) :
    graph.declaration id property = .ok (declared, node) ↔
      graph.property? property = some declared ∧ graph.node? id = some node ∧
        graph.isSubtype node.type declared.owner = true := by
  rw [declaration]
  cases isDeclared : graph.property? property with
  | none => simp [bind, Except.bind]
  | some found =>
      simp only [bind, Except.bind, nodeOrFault]
      cases isNode : graph.node? id with
      | none => simp
      | some held =>
          simp only
          by_cases below : graph.isSubtype held.type found.owner = true
          · simp only [below, if_true, Except.ok.injEq, Prod.mk.injEq, Option.some.injEq]
            constructor
            · intro given
              obtain ⟨rfl, rfl⟩ := given
              exact ⟨rfl, rfl, below⟩
            · intro given
              obtain ⟨same, sameNode, -⟩ := given
              exact ⟨same, sameNode⟩
          · simp only [below, Bool.false_eq_true, if_false, Option.some.injEq, reduceCtorEq,
              false_iff]
            intro given
            obtain ⟨rfl, rfl, isBelow⟩ := given
            exact below isBelow

/-- Who is referred to and which tags are listed follows a value that is accepted; only a tag
that is gone is in the way. -/
theorem leads_follow (sound : graph.Sound) {value held : Value}
    (offers : graph.Offers id property declared) (validated : graph.Validated declared value held) :
    (follow id property declared ((graph.valueAt? id property).getD .null) held).Leads graph
      (fun _ mid => Followed id property declared held graph mid)
      (fun changed => changed = graph ∧ declared.isTag = true ∧
        ∃ tag ∈ value.tags, graph.tags.contains tag = false) := by
  obtain ⟨isDeclared, own, isOwn, -⟩ := offers
  obtain ⟨node, found, -⟩ := (typeOf?_eq_some_iff id own).mp isOwn
  rw [follow]
  by_cases isNode : declared.isNode = true
  · simp only [isNode, if_true]
    exact Change.leads_modify (followed_relink sound isDeclared isNode validated.again)
  · have notNode : declared.isNode = false := by simpa using isNode
    simp only [notNode, Bool.false_eq_true, if_false]
    by_cases isTag : declared.isTag = true
    · simp only [isTag, if_true]
      obtain ⟨ns, isType⟩ := declared.isTag_iff.mp isTag
      have fits : graph.Fits declared ((graph.valueAt? id property).getD .null) := by
        cases isValue : graph.valueAt? id property with
        | none => exact ⟨⟨graph, .null⟩, fun _ => .null, fun _ _ tag member => by cases member⟩
        | some old =>
            obtain ⟨before, ⟨isBefore, -⟩, -, fits⟩ := sound.referenced.held isValue
            rw [isDeclared] at isBefore
            cases isBefore
            exact fits
      refine (leads_retag sound (by rw [found]; rfl)
        (present_or_gone sound.listed.linked isType fits validated.again)).imp ?_ ?_
      · intro _ mid outcome
        obtain ⟨midSound, alike, settled⟩ := outcome
        exact .of_alike alike midSound notNode fun _ _ => settled
      · intro mid outcome
        obtain ⟨unchanged, tag, member, gone⟩ := outcome
        rw [validated.tags_eq] at member
        exact ⟨unchanged, trivial, tag, member, gone⟩
    · simp only [isTag, Bool.false_eq_true, if_false]
      refine Change.leads_pure (.of_alike (.refl graph) sound notNode fun ns isType => ?_)
      exact absurd (declared.isTag_iff.mpr ⟨ns, isType⟩) isTag

/-- A sound graph stays sound when a value is set.  Only values that are not accepted, and
tags that are gone, are in the way, and then nothing is changed. -/
theorem leads_setProperty (sound : graph.Sound) (id : NodeId) (property : PropertyId)
    (value : Value) :
    (setProperty id property value).Leads graph
      (fun _ changed => changed.Sound ∧ ∃ declared held, graph.Offers id property declared ∧
        graph.Validated declared value held ∧ Assigned id property held graph changed)
      (fun changed => changed = graph ∧ ∀ declared held, graph.Offers id property declared →
        graph.Validated declared value held → declared.isTag = true ∧
          ∃ tag ∈ value.tags, graph.tags.contains tag = false) := by
  rw [setProperty_eq]
  refine Change.leads_ask_bind (fun answer isDeclaration => ?_) fun fault refused => ⟨rfl, ?_⟩
  rotate_left
  · intro declared _ offered
    obtain ⟨isDeclared, own, isOwn, below⟩ := offered
    obtain ⟨node, found, rfl⟩ := (typeOf?_eq_some_iff id own).mp isOwn
    rw [(declaration_eq_ok_iff node).mpr ⟨isDeclared, found, below⟩] at refused
    cases refused
  obtain ⟨declared, node⟩ := answer
  obtain ⟨isDeclared, found, below⟩ := (declaration_eq_ok_iff node).mp isDeclaration
  have only {other : Property} (offered : graph.Offers id property other) : other = declared :=
    Option.some.inj (offered.1.symm.trans isDeclared)
  refine Change.leads_ask_bind (fun held isHeld => ?_) fun fault refused => ⟨rfl, ?_⟩
  rotate_left
  · intro other held offered validated
    rw [only offered] at validated
    rw [(validate_eq_ok_iff declared value held).mpr validated] at refused
    cases refused
  have validated := (validate_eq_ok_iff declared value held).mp isHeld
  have offers : graph.Offers id property declared :=
    ⟨isDeclared, node.type, typeOf?_of_node? found, below⟩
  rw [← valueAt?_of_node? found]
  refine Change.leads_bind (fun _ mid => Followed id property declared held graph mid) ?_ ?_
  · refine (leads_follow sound offers validated).imp (fun _ _ followed => followed) ?_
    intro mid outcome
    obtain ⟨unchanged, isTag, gone⟩ := outcome
    refine ⟨unchanged, fun other _ offered _ => ?_⟩
    rw [only offered]
    exact ⟨isTag, gone⟩
  · intro _ mid followed
    exact Change.leads_modify
      ⟨followed.sound sound offers validated.again, declared, held, offers, validated,
        followed.assigned offers⟩

end Graph

end LifecycleGraph
