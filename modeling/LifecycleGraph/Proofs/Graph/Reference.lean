import LifecycleGraph.Proofs.Graph.Population
import LifecycleGraph.Proofs.Graph.Validation

/-!
# References between nodes

A node that is held by a node property knows the node that holds it.  A graph is
sound if its indices list its nodes, if this is so of all references, and if
every value that is held is one that its property accepted once and would accept
again: as it is where it holds nodes, and up to tags that are gone where it holds tags.
-/

set_option autoImplicit false

namespace LifecycleGraph

/-- What a node holds, and who refers to it. -/
structure Node.Holding where
  type : TypeId
  properties : Table PropertyId Value
  referrers : Table PropertyId (Ascending NodeId)

def Node.holding (node : Node) : Node.Holding := ⟨node.type, node.properties, node.referrers⟩

namespace Graph

def valueAt? (graph : Graph) (id : NodeId) (property : PropertyId) : Option Value :=
  (graph.node? id).bind (·.value? property)

/-- A node is among the referrers of another one. -/
def refersBack (graph : Graph) (target : NodeId) (property : PropertyId) (source : NodeId) : Bool :=
  (graph.node? target).any fun node => node.referrers.hasMember property source

/-- A node holds another one in a node property. -/
def Refers (graph : Graph) (source : NodeId) (property : PropertyId) (target : NodeId) : Prop :=
  ∃ declared value, graph.property? property = some declared ∧ declared.isNode = true ∧
    graph.valueAt? source property = some value ∧ target ∈ value.nodes

/-- A value can stay where it is. -/
structure Fits (graph : Graph) (declared : Property) (value : Value) : Prop where
  accepted : ∃ past : Graph, past.Validated declared value value
  nodes : declared.isNode = true → graph.Validated declared value value
  tags : ∀ ns, declared.dataType = .tag ns → ∀ tag ∈ value.tags,
    tag.index < graph.tags.arena.next ∧
      (graph.tags.contains tag = true → graph.AdmitsTag ns tag)

/-- A property is one of a node's own type. -/
def Offers (graph : Graph) (id : NodeId) (property : PropertyId) (declared : Property) : Prop :=
  graph.property? property = some declared ∧
    ∃ own, graph.typeOf? id = some own ∧ graph.isSubtype own declared.owner = true

/-- A node may hold a value for a property. -/
def Holds (graph : Graph) (id : NodeId) (property : PropertyId) (value : Value) : Prop :=
  ∃ declared, graph.Offers id property declared ∧ value.items ≠ [] ∧ graph.Fits declared value

structure Referenced (graph : Graph) : Prop where
  sorted : ∀ {id node}, graph.node? id = some node →
    node.properties.Sorted ∧ node.referrers.Sorted
  held : ∀ {id property value}, graph.valueAt? id property = some value →
    graph.Holds id property value
  mirrored : ∀ target property source,
    graph.refersBack target property source = true ↔ graph.Refers source property target

structure Sound (graph : Graph) : Prop where
  listed : graph.Listed
  referenced : graph.Referenced

variable {graph : Graph}

theorem typeOf?_eq_some_iff (id : NodeId) (type : TypeId) :
    graph.typeOf? id = some type ↔ ∃ node, graph.node? id = some node ∧ node.type = type :=
  Option.map_eq_some_iff

theorem valueAt?_of_node? {id : NodeId} {node : Node} (found : graph.node? id = some node)
    (property : PropertyId) : graph.valueAt? id property = node.value? property := by
  rw [valueAt?, found, Option.bind_some]

theorem typeOf?_of_node? {id : NodeId} {node : Node} (found : graph.node? id = some node) :
    graph.typeOf? id = some node.type := by
  rw [typeOf?, found, Option.map_some]

theorem isSome_typeOf? (id : NodeId) :
    (graph.typeOf? id).isSome = (graph.node? id).isSome := by
  simp [typeOf?]

theorem Listed.typeOf?_lt (listed : graph.Listed) {id : NodeId} {type : TypeId}
    (isType : graph.typeOf? id = some type) : type.index < graph.types.size := by
  obtain ⟨node, found, rfl⟩ := (typeOf?_eq_some_iff id type).mp isType
  exact listed.type_lt found

/-- The nodes that a node refers to are those in its value. -/
theorem Referenced.refersBack_iff (referenced : graph.Referenced) {property : PropertyId}
    {declared : Property} (isDeclared : graph.property? property = some declared)
    (isNode : declared.isNode = true) (target source : NodeId) :
    graph.refersBack target property source = true ↔
      target ∈ ((graph.valueAt? source property).getD .null).nodes := by
  rw [referenced.mirrored]
  cases isValue : graph.valueAt? source property with
  | none =>
      refine iff_of_false ?_ List.not_mem_nil
      intro given
      obtain ⟨_, value, -, -, found, -⟩ := given
      rw [isValue] at found
      cases found
  | some value =>
      constructor
      · intro given
        obtain ⟨_, held, -, -, found, member⟩ := given
        rw [isValue] at found
        cases found
        exact member
      · intro member
        exact ⟨declared, value, isDeclared, isNode, isValue, member⟩

/-! ## The same values in another graph -/

section Move

variable {old new : Graph}

theorem AdmitsNode.move (listed : old.Listed) (declares : old.Declares new)
    {base : Option TypeId} {id : NodeId} (same : new.typeOf? id = old.typeOf? id)
    (admits : old.AdmitsNode base id) : new.AdmitsNode base id := by
  obtain ⟨own, isOwn, below⟩ := admits
  refine ⟨own, same.trans isOwn, fun above isAbove => ?_⟩
  rw [declares.isSubtype listed.schema (listed.typeOf?_lt isOwn)]
  exact below above isAbove

theorem Fits.move (listed : old.Listed) (declares : old.Declares new)
    (follows : old.tags.Follows new.tags) {declared : Property} {value : Value}
    (same : declared.isNode = true → ∀ id ∈ value.nodes, new.typeOf? id = old.typeOf? id)
    (fits : old.Fits declared value) : new.Fits declared value where
  accepted := fits.accepted
  nodes := by
    intro isNode
    refine (fits.nodes isNode).of_admits ?_ ?_
    · intro base id _ member admits
      exact admits.move listed declares (same isNode id member)
    · intro ns tag isType
      rw [Property.isNode, isType] at isNode
      cases isNode
  tags := by
    intro ns isType tag member
    obtain ⟨given, admits⟩ := fits.tags ns isType tag member
    obtain ⟨givenNow, left⟩ := follows tag given
    refine ⟨givenNow, fun present => ?_⟩
    obtain ⟨was, isa⟩ := left present
    have admitted := admits was
    cases ns with
    | none => exact present
    | some ns => exact (isa ns).trans admitted

theorem Offers.move (listed : old.Listed) (declares : old.Declares new) {id : NodeId}
    {property : PropertyId} {declared : Property} (same : new.typeOf? id = old.typeOf? id)
    (offers : old.Offers id property declared) : new.Offers id property declared := by
  obtain ⟨isDeclared, own, isOwn, below⟩ := offers
  refine ⟨declares.property? isDeclared, own, same.trans isOwn, ?_⟩
  rw [declares.isSubtype listed.schema (listed.typeOf?_lt isOwn)]
  exact below

/-- A value stays where it is while its node and the nodes in it keep their types. -/
theorem Holds.move (listed : old.Listed) (declares : old.Declares new)
    (follows : old.tags.Follows new.tags) {id : NodeId} {property : PropertyId} {value : Value}
    (own : new.typeOf? id = old.typeOf? id)
    (same : ∀ declared, old.property? property = some declared → declared.isNode = true →
      ∀ target ∈ value.nodes, new.typeOf? target = old.typeOf? target)
    (holds : old.Holds id property value) : new.Holds id property value := by
  obtain ⟨declared, offers, items, fits⟩ := holds
  exact ⟨declared, offers.move listed declares own, items,
    fits.move listed declares follows (same declared offers.1)⟩

/-- Every node holds the same and is referred to by the same nodes. -/
def HoldsSame (old new : Graph) : Prop :=
  ∀ id, (new.node? id).map Node.holding = (old.node? id).map Node.holding

namespace HoldsSame

theorem typeOf? (same : old.HoldsSame new) (id : NodeId) : new.typeOf? id = old.typeOf? id := by
  have types := congrArg (Option.map Node.Holding.type) (same id)
  rwa [Option.map_map, Option.map_map] at types

theorem valueAt? (same : old.HoldsSame new) (id : NodeId) (property : PropertyId) :
    new.valueAt? id property = old.valueAt? id property := by
  have values := congrArg (Option.bind · fun holding => holding.properties.find? property) (same id)
  simp only [Option.bind_map] at values
  exact values

theorem refersBack (same : old.HoldsSame new) (target : NodeId) (property : PropertyId)
    (source : NodeId) :
    new.refersBack target property source = old.refersBack target property source := by
  have listed := congrArg (Option.any fun holding => holding.referrers.hasMember property source)
    (same target)
  rwa [Option.any_map, Option.any_map] at listed

end HoldsSame

/-- References stay right in a graph that holds the same under types that were
declared and tags that are left. -/
theorem Referenced.move (listed : old.Listed) (referenced : old.Referenced)
    (declares : old.Declares new) (follows : old.tags.Follows new.tags)
    (same : old.HoldsSame new) : new.Referenced where
  sorted := by
    intro id node found
    have known := same id
    rw [found, Option.map_some] at known
    obtain ⟨before, isBefore, holding⟩ := Option.map_eq_some_iff.mp known.symm
    obtain ⟨-, properties, referrers⟩ := Node.Holding.mk.inj holding
    rw [← properties, ← referrers]
    exact referenced.sorted isBefore
  held := by
    intro id property value isValue
    rw [same.valueAt?] at isValue
    exact (referenced.held isValue).move listed declares follows (same.typeOf? id)
      fun _ _ _ target _ => same.typeOf? target
  mirrored := by
    intro target property source
    rw [same.refersBack, referenced.mirrored]
    constructor
    · intro given
      obtain ⟨declared, value, isDeclared, isNode, isValue, member⟩ := given
      exact ⟨declared, value, declares.property? isDeclared, isNode,
        (same.valueAt? source property).trans isValue, member⟩
    · intro given
      obtain ⟨declared, value, isDeclared, isNode, isValue, member⟩ := given
      rw [same.valueAt?] at isValue
      obtain ⟨before, ⟨isBefore, -⟩, -⟩ := referenced.held isValue
      have again := declares.property? isBefore
      rw [isDeclared] at again
      cases again
      exact ⟨declared, value, isBefore, isNode, isValue, member⟩

end Move

/-! ## Changes of flat lists and states -/

/-- The second graph has the same nodes under the same types, tags and states. -/
structure SameNodes (old new : Graph) : Prop where
  types : new.types = old.types
  tags : new.tags = old.tags
  states : new.states = old.states
  typeOf? : ∀ id, new.typeOf? id = old.typeOf? id

namespace SameNodes

theorem refl (graph : Graph) : graph.SameNodes graph := ⟨rfl, rfl, rfl, fun _ => rfl⟩

theorem trans {first second third : Graph} (one : first.SameNodes second)
    (two : second.SameNodes third) : first.SameNodes third where
  types := two.types.trans one.types
  tags := two.tags.trans one.tags
  states := two.states.trans one.states
  typeOf? id := (two.typeOf? id).trans (one.typeOf? id)

variable {old new : Graph}

theorem isSome_node? (same : old.SameNodes new) (id : NodeId) :
    (new.node? id).isSome = (old.node? id).isSome := by
  rw [← isSome_typeOf?, ← isSome_typeOf?, same.typeOf?]

theorem follows (same : old.SameNodes new) : old.tags.Follows new.tags := by
  rw [same.tags]
  exact Forest.follows_self old.tags

theorem offers (same : old.SameNodes new) (listed : old.Listed) {id : NodeId}
    {property : PropertyId} {declared : Property} (offers : old.Offers id property declared) :
    new.Offers id property declared :=
  offers.move listed (.of_types same.types) (same.typeOf? id)

end SameNodes

/-- Flat lists, states of nodes and indices apart, two graphs are the same. -/
structure Alike (old new : Graph) : Prop extends SameNodes old new where
  holds : old.HoldsSame new

theorem Alike.refl (graph : Graph) : graph.Alike graph := ⟨.refl graph, fun _ => rfl⟩

theorem Alike.trans {first second third : Graph} (one : first.Alike second)
    (two : second.Alike third) : first.Alike third :=
  ⟨one.toSameNodes.trans two.toSameNodes, fun id => (two.holds id).trans (one.holds id)⟩

theorem Sound.of_alike {old new : Graph} (sound : old.Sound) (alike : old.Alike new)
    (listed : new.Listed) : new.Sound :=
  ⟨listed, sound.referenced.move sound.listed (.of_types alike.types) alike.follows alike.holds⟩

theorem alike_adjustNode (id : NodeId) (change : Node → Node)
    (states : Table StateId (Ascending NodeId)) (members : Table TagId (Ascending NodeId))
    (hidden : ∀ node, (change node).holding = node.holding) :
    graph.Alike
      { graph.adjustNode id change with stateMembers := states, tagMembers := members } := by
  have holds : graph.HoldsSame
      { graph.adjustNode id change with stateMembers := states, tagMembers := members } := by
    intro other
    have adjusted : Graph.node?
        { graph.adjustNode id change with stateMembers := states, tagMembers := members } other =
          (graph.adjustNode id change).node? other := rfl
    rw [adjusted, node?_adjustNode]
    split
    · rw [Option.map_map]
      exact congrArg (Option.map · _) (funext hidden)
    · rfl
  exact ⟨⟨rfl, rfl, rfl, holds.typeOf?⟩, holds⟩

/-- A change that keeps the indices in step and all else alike keeps a graph sound. -/
theorem leads_alike {α : Type} {change : Change Graph α} (sound : graph.Sound)
    {post : α → Graph → Prop} {stopped : Graph → Prop} (keeps : change.Keeps Listed)
    (leads : change.Leads graph
      (fun answer changed => graph.Alike changed ∧ post answer changed) stopped) :
    change.Leads graph
      (fun answer changed => changed.Sound ∧ graph.Alike changed ∧ post answer changed) stopped := by
  refine ((keeps graph sound.listed).and leads).imp ?_ fun _ both => both.2
  intro answer changed outcome
  obtain ⟨listed, alike, holds⟩ := outcome
  exact ⟨sound.of_alike alike listed, alike, holds⟩

theorem leads_pushTag (sound : graph.Sound) (id : NodeId) (tag : TagId) :
    (pushTag id tag).Leads graph
      (fun _ changed => changed.Sound ∧ graph.Alike changed ∧ graph.tags.contains tag = true)
      (fun changed => changed = graph ∧
        (graph.tags.contains tag = false ∨ graph.node? id = none)) := by
  refine leads_alike sound (keeps_pushTag id tag) ?_
  rw [pushTag, Change.leads_ofFunction]
  by_cases present : graph.tags.contains tag = true
  · simp only [present, Bool.not_true, Bool.false_eq_true, if_false]
    cases found : graph.node? id with
    | none => exact ⟨rfl, .inr rfl⟩
    | some node => exact ⟨alike_adjustNode id _ _ _ fun _ => rfl, trivial⟩
  · have gone : graph.tags.contains tag = false := by simpa using present
    simp [gone]

theorem leads_addTag (sound : graph.Sound) (id : NodeId) (tag : TagId) :
    (addTag id tag).Leads graph (fun _ changed => changed.Sound ∧ graph.Alike changed)
      (fun changed => changed = graph ∧
        (graph.tags.contains tag = false ∨ graph.node? id = none)) := by
  rw [addTag]
  refine leads_nodeOrFault_bind (fun gone => ⟨rfl, .inr gone⟩) fun node _ => ?_
  split
  · exact Change.leads_pure ⟨sound, .refl graph⟩
  · refine (leads_pushTag sound id tag).imp ?_ fun _ stopped => stopped
    intro _ changed outcome
    obtain ⟨changedSound, alike, -⟩ := outcome
    exact ⟨changedSound, alike⟩

/-- A tag that is gone is in no flat list, so that it is not found to be removed. -/
theorem leads_removeTag (sound : graph.Sound) (id : NodeId) (tag : TagId) :
    (removeTag id tag).Leads graph
      (fun _ changed => changed.Sound ∧ graph.Alike changed ∧
        (graph.tags.contains tag = false → changed = graph))
      (fun changed => changed = graph ∧ graph.node? id = none) := by
  refine leads_alike sound (keeps_removeTag id tag) ?_
  rw [removeTag, Change.leads_ofFunction]
  cases found : graph.node? id with
  | none => exact ⟨rfl, rfl⟩
  | some node =>
      simp only
      by_cases held : node.tags.contains tag = true
      · simp only [held, if_true]
        refine ⟨alike_adjustNode _ _ _ _ fun _ => rfl, fun gone => ?_⟩
        have carried := sound.listed.carried (entryOf?_of_node? found)
          (List.contains_iff_mem.mp held)
        rw [gone] at carried
        cases carried
      · simp only [held, Bool.false_eq_true, if_false]
        exact ⟨.refl graph, fun _ => trivial⟩

theorem leads_setState (sound : graph.Sound) (id : NodeId) (state : Option StateId) :
    (setState id state).Leads graph
      (fun _ changed => changed.Sound ∧ graph.Alike changed)
      (fun changed => changed = graph ∧
        ((∃ target, state = some target ∧ graph.state? target = none) ∨
          graph.node? id = none)) := by
  have alike : (setState id state).Leads graph
      (fun _ changed => graph.Alike changed ∧ True)
      (fun changed => changed = graph ∧
        ((∃ target, state = some target ∧ graph.state? target = none) ∨
          graph.node? id = none)) := by
    rw [setState, Change.leads_ofFunction]
    cases missing : state.filter fun target => (graph.state? target).isNone with
    | some target =>
        obtain ⟨isTarget, isMissing⟩ := Option.filter_eq_some_iff.mp missing
        exact ⟨rfl, .inl ⟨target, isTarget, Option.isNone_iff_eq_none.mp isMissing⟩⟩
    | none =>
        simp only
        cases found : graph.node? id with
        | none => exact ⟨rfl, .inr rfl⟩
        | some node =>
            simp only
            by_cases already : node.state = state
            · simp only [already, if_true]
              exact ⟨.refl graph, trivial⟩
            · simp only [already, if_false]
              exact ⟨alike_adjustNode id _ _ _ fun _ => rfl, trivial⟩
  refine (leads_alike sound (keeps_setState id state) alike).imp ?_ fun _ stopped => stopped
  intro _ changed outcome
  obtain ⟨changedSound, isAlike, -⟩ := outcome
  exact ⟨changedSound, isAlike⟩

/-! ## New nodes -/

/-- A new node holds nothing, and no node can hold it yet. -/
theorem Sound.enroll (sound : graph.Sound) {type : TypeId} {name : String}
    (listed : (graph.enroll type name).Listed) : (graph.enroll type name).Sound := by
  have values (id : NodeId) (property : PropertyId) :
      (graph.enroll type name).valueAt? id property = graph.valueAt? id property := by
    rw [valueAt?, node?_enroll]
    split
    · rename_i isNew
      rw [isNew, valueAt?, node?_nextId]
      rfl
    · rfl
  have types {id : NodeId} (known : ∃ own, graph.typeOf? id = some own) :
      (graph.enroll type name).typeOf? id = graph.typeOf? id := by
    obtain ⟨own, isOwn⟩ := known
    rw [typeOf?, node?_enroll, if_neg, typeOf?]
    intro same
    obtain rfl := same
    rw [typeOf?, node?_nextId] at isOwn
    cases isOwn
  refine ⟨listed, ?_, ?_, ?_⟩
  · intro id node found
    rw [node?_enroll] at found
    split at found
    · cases found
      exact ⟨Table.sorted_empty, Table.sorted_empty⟩
    · exact sound.referenced.sorted found
  · intro id property value isValue
    rw [values] at isValue
    have holds := sound.referenced.held isValue
    obtain ⟨declared, ⟨isDeclared, own, isOwn, -⟩, -, fits⟩ := sound.referenced.held isValue
    have declares : graph.Declares (graph.enroll type name) := .of_types rfl
    refine holds.move sound.listed declares (Forest.follows_self _) (types ⟨own, isOwn⟩) ?_
    intro again isAgain isNode target member
    rw [isDeclared] at isAgain
    cases isAgain
    exact types ((fits.nodes isNode).typeOf?_of_mem_nodes isNode member)
  · intro target property source
    have back : (graph.enroll type name).refersBack target property source =
        graph.refersBack target property source := by
      rw [refersBack, node?_enroll]
      split
      · rename_i isNew
        rw [isNew, refersBack, node?_nextId]
        rfl
      · rfl
    rw [back, sound.referenced.mirrored]
    unfold Refers
    rw [values]
    rfl

end Graph

end LifecycleGraph
