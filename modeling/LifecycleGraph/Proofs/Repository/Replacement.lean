import LifecycleGraph.Proofs.Repository.Restoration

/-!
# Contents that take the place of others

Whatever a node held is taken away when it is configured.  After that it holds what it
is configured with and nothing else: the tags that are named, each once, behind them the
tags of its values, and for each visible property the value that was read for it before
anything was taken away.  Who refers to them apart, all other nodes stay as they are.
-/

set_option autoImplicit false

namespace LifecycleGraph

/-- What a node is and carries, whoever refers to it. -/
def Node.unreferred (node : Node) : Node := { node with referrers := .empty }

theorem Node.unreferred_eq {node other : Node} (bared : node.bared = other.bared)
    (carried : node.carried = other.carried) : node.unreferred = other.unreferred := by
  have parts (node : Node) : node.unreferred =
      { node.bared with properties := node.carried.1, tags := node.carried.2 } := rfl
  rw [parts, parts, bared, carried]

namespace Graph

variable {graph start state : Graph} {id : NodeId} {entries : List (PropertyId × Value)}
  {flat : List TagId}

/-! ## The other nodes -/

/-- No node but one carries anything else than at the start. -/
structure Confined (start : Graph) (id : NodeId) (state : Graph) : Prop where
  listed : state.Listed
  others : ∀ other, other ≠ id →
    (state.node? other).map Node.carried = (start.node? other).map Node.carried

namespace Confined

theorem refl (listed : graph.Listed) (id : NodeId) : Confined graph id graph :=
  ⟨listed, fun _ _ => rfl⟩

/-- A change that alters the one node alone. -/
theorem leads {α : Type} {change : Change Graph α} (confined : Confined start id state)
    (keeps : change.Keeps Listed)
    (alters : change.Leads state (fun _ changed => ∃ alter, Altered id alter state changed)
      (fun _ => True)) :
    change.Leads state (fun _ changed => Confined start id changed) (fun _ => True) := by
  refine ((keeps state confined.listed).and alters).imp ?_ fun _ _ => trivial
  intro _ changed outcome
  obtain ⟨listed, alter, altered⟩ := outcome
  refine ⟨listed, fun other different => (altered.carried other).trans ?_⟩
  simp only [if_neg different]
  exact confined.others other different

theorem leads_setProperty (confined : Confined start id state) (property : PropertyId)
    (value : Value) :
    (setProperty id property value).Leads state (fun _ changed => Confined start id changed)
      (fun _ => True) := by
  refine confined.leads (keeps_setProperty id property value)
    ((leads_setProperty_altered confined.listed id property value).imp ?_ fun _ _ => trivial)
  intro _ changed outcome
  obtain ⟨_, _, _, -, -, -, altered⟩ := outcome
  exact ⟨_, altered⟩

theorem leads_removeTag (confined : Confined start id state) (tag : TagId) :
    (removeTag id tag).Leads state (fun _ changed => Confined start id changed)
      (fun _ => True) :=
  confined.leads (keeps_removeTag id tag)
    ((leads_removeTag_altered confined.listed id tag).imp (fun _ _ altered => ⟨_, altered⟩)
      fun _ _ => trivial)

theorem leads_addTag (confined : Confined start id state) (tag : TagId) :
    (addTag id tag).Leads state (fun _ changed => Confined start id changed)
      (fun _ => True) := by
  refine confined.leads (keeps_addTag id tag) ?_
  rw [addTag]
  refine Change.leads_ask_bind (fun node _ => ?_) fun _ _ => trivial
  split
  · exact Change.leads_pure ⟨_, .refl id state⟩
  · exact (leads_pushTag_altered id tag state).imp (fun _ _ altered => ⟨_, altered⟩)
      fun _ _ => trivial

end Confined

end Graph

namespace Repository

open Graph

variable {repository : Repository} {graph start state : Graph} {id : NodeId} {node now : Node}
  {content : NodeContent} {label : String} {property : Property}
  {entries : List (PropertyId × Value)} {flat : List TagId}

/-! ## Filling -/

theorem leads_clearNode_confined (listed : graph.Listed) (id : NodeId) :
    (clearNode id).Leads graph (fun _ changed => Confined graph id changed) (fun _ => True) := by
  rw [clearNode]
  refine Change.leads_ask_bind (fun node _ => ?_) fun _ _ => trivial
  refine Change.leads_bind _ (Change.leads_forEach _ (Confined.refl listed id)
    fun property _ _ confined => confined.leads_setProperty property .null) ?_
  intro _ cleared confined
  refine Change.leads_ask_bind (fun node _ => ?_) fun _ _ => trivial
  exact Change.leads_forEach _ confined fun tag _ _ confined =>
    (confined.leads_removeTag tag).answerless

theorem leads_fill_confined (listed : graph.Listed) (id : NodeId) (content : NodeContent)
    (preparation : Preparation) :
    (fill id content preparation).Leads graph (fun _ changed => Confined graph id changed)
      (fun _ => True) := by
  have created (state : Graph) (confined : Confined graph id state) (name : String) :
      (tagOrCreate name none).Leads state (fun _ changed => Confined graph id changed)
        (fun _ => True) := by
    refine Change.leads_within ((Forest.leads_tagOrCreate confined.listed.linked name none).imp
      (fun _ grown outcome => ?_) fun _ _ => trivial)
    exact ⟨confined.listed.regrown outcome.1 state.states, confined.others⟩
  rw [fill]
  refine Change.leads_bind _ (leads_clearNode_confined listed id) fun _ _ confined => ?_
  refine Change.leads_bind _ (Change.leads_forEach _ confined fun name _ state confined =>
    Change.leads_bind _ (created state confined name) fun tag _ confined =>
      confined.leads_addTag tag) fun _ _ confined => ?_
  refine Change.leads_bind _ (Change.leads_forEach _ confined fun entry _ _ confined =>
    confined.leads_setProperty entry.1 entry.2) fun _ valued confined => ?_
  refine Change.leads_bind _ ((keeps_setState id preparation.state valued confined.listed).and
    (leads_setState_moved id preparation.state valued) |>.imp (fun _ _ both => both)
      fun _ _ => trivial) fun _ settled outcome => ?_
  obtain ⟨listed, -, moved⟩ := outcome
  refine Change.leads_modify ⟨listed.adjustContent id fun _ => rfl, fun other different => ?_⟩
  rw [node?_adjustNode, if_neg different, moved, if_neg different]
  exact confined.others other different

/-! ## What is found before -/

theorem exists_configuredValue {properties : List Property}
    (configured : repository.configuredValues label content properties = .ok entries) :
    ∀ property ∈ properties, ∃ value,
      repository.configuredValue label content property = .ok value := by
  induction properties generalizing entries with
  | nil => exact fun property member => by cases member
  | cons first rest inductionHypothesis =>
      obtain ⟨value, isValue, configured⟩ := exists_of_bind_eq_ok configured
      obtain ⟨others, areOthers, -⟩ := exists_of_bind_eq_ok configured
      intro property member
      rcases List.mem_cons.mp member with rfl | inRest
      · exact ⟨value, isValue⟩
      · exact inductionHypothesis areOthers property inRest

theorem stateId?_of_preparedState {name : Option String} {target : Option StateId}
    (prepared : repository.preparedState label name = .ok target) :
    name.map repository.graph.stateId? = target.map some := by
  cases name with
  | none =>
      cases prepared
      rfl
  | some name =>
      rw [preparedState] at prepared
      cases isState : repository.graph.stateId? name with
      | none =>
          rw [isState] at prepared
          cases prepared
      | some state =>
          rw [isState] at prepared
          cases prepared
          rw [Option.map_some, isState]
          rfl

/-- A content is prepared with the state that it names and a value for each visible property. -/
theorem of_prepare (found : repository.graph.node? id = some node) {preparation : Preparation}
    (prepared : repository.prepare id content = .ok preparation) :
    content.state.map repository.graph.stateId? = preparation.state.map some ∧
      (∀ property ∈ repository.graph.visibleProperties node.type, ∃ value,
        repository.configuredValue (repository.graph.label id) content property = .ok value) ∧
      preparation.values = repository.configuredEntries (repository.graph.label id) content
        (repository.graph.visibleProperties node.type) := by
  obtain ⟨same, isSame, prepared⟩ := exists_of_bind_eq_ok prepared
  obtain rfl := Option.some.inj (found.symm.trans ((nodeOrFault_eq_ok_iff id same).mp isSame))
  obtain ⟨target, isTarget, prepared⟩ := exists_of_bind_eq_ok prepared
  simp only at prepared
  split at prepared
  · cases prepared
  obtain ⟨_, -, prepared⟩ := exists_of_bind_eq_ok prepared
  obtain ⟨values, areValues, prepared⟩ := exists_of_bind_eq_ok prepared
  split at prepared
  · cases prepared
  cases prepared
  have each := exists_configuredValue areValues
  exact ⟨stateId?_of_preparedState isTarget, each,
    Except.ok.inj (areValues.symm.trans (configuredValues_eq each))⟩

/-- A value that is configured is validated already. -/
theorem settles_of_configured {properties : List Property}
    (declared : ∀ property ∈ properties, repository.graph.property? property.id = some property)
    (each : ∀ property ∈ properties, ∃ value,
      repository.configuredValue label content property = .ok value) :
    ∀ entry ∈ repository.configuredEntries label content properties,
      repository.graph.Settles entry.1 entry.2 := by
  intro entry member
  obtain ⟨property, inProperties, rfl⟩ := List.mem_map.mp member
  obtain ⟨value, isValue⟩ := each property inProperties
  obtain ⟨-, decoded, -, validated⟩ := (configuredValue_eq_ok_iff value).mp isValue
  rw [isValue]
  exact ⟨property, declared property inProperties, fun _ _ => validated.eq_of_again⟩

/-- A node to which values were entered holds what was read for a property, if it has items. -/
theorem value?_of_configured {properties : List Property}
    (distinct : (properties.map Property.id).Nodup)
    (values : ∀ property, now.value? property =
      entered (repository.configuredEntries label content properties) property)
    (member : property ∈ properties) {value : Value}
    (isValue : repository.configuredValue label content property = .ok value) :
    now.value? property.id = if value.items.isEmpty then none else some value := by
  rw [values]
  refine entered_of_mem (by rwa [keys_configuredEntries]) (List.mem_map.mpr ⟨property, member, ?_⟩)
  rw [isValue]
  rfl

/-- The tags that come with the values that were entered are those of the values that are held. -/
theorem enteredTags_eq_propertyTags {properties : List Property}
    (declared : ∀ property ∈ properties, repository.graph.property? property.id = some property)
    (each : ∀ property ∈ properties, ∃ value,
      repository.configuredValue label content property = .ok value)
    (distinct : (properties.map Property.id).Nodup)
    (values : ∀ property, now.value? property =
      entered (repository.configuredEntries label content properties) property) :
    repository.graph.enteredTags (repository.configuredEntries label content properties) =
      propertyTags now properties := by
  rw [enteredTags, configuredEntries, List.flatMap_map, propertyTags]
  refine List.flatMap_congr fun property member => ?_
  obtain ⟨value, isValue⟩ := each property member
  rw [isValue, tagsUnder, declared property member, Option.any_some,
    value?_of_configured distinct values member isValue]
  by_cases empty : value.items.isEmpty = true
  · simp [empty, Except.toOption, tags_of_items_isEmpty empty]
  · simp [empty, Except.toOption]

/-! ## Contents that are replaced -/

/-- What a node is once a content has taken the place of what it held: it has the state, the
description and the services of the content, for each visible property the value that was read
for it, if that has items, no other values, and in its flat list the tags that were given, each
once, before those of its values. -/
structure Replaced (repository : Repository) (node : Node) (content : NodeContent)
    (given : List TagId) (now : Node) : Prop where
  identity : now.id = node.id ∧ now.name = node.name ∧ now.type = node.type
  state : content.state.map repository.graph.stateId? = now.state.map some
  description : now.description = content.description
  services : now.services = .ofList content.services
  values : ∀ property ∈ repository.graph.visibleProperties node.type, ∃ decoded value,
    repository.decodeValue property (configuredData content property) = .ok decoded ∧
      repository.graph.validate property decoded = .ok value ∧
      now.value? property.id = if value.items.isEmpty then none else some value
  noOthers : ∀ id value, now.value? id = some value →
    ∃ property ∈ repository.graph.visibleProperties node.type, property.id = id
  tags : now.tags = firstOccurrences given ++
    propertyTags now (repository.graph.visibleProperties node.type)

theorem replaced_of_filled (sound : repository.graph.Sound)
    (found : repository.graph.node? id = some node) {preparation : Preparation}
    (prepared : repository.prepare id content = .ok preparation) {given : List TagId}
    (bared : now.bared = (refilled content preparation node).bared)
    (tags : now.tags = firstOccurrences given ++ repository.graph.enteredTags preparation.values)
    (values : ∀ property, now.value? property = entered preparation.values property) :
    Replaced repository node content given now := by
  obtain ⟨isState, each, entries⟩ := of_prepare found prepared
  have distinct := sound.listed.schema.nodup_visible node.type
  have declared (property : Property)
      (visible : property ∈ repository.graph.visibleProperties node.type) :=
    (sound.listed.schema.property?_of_visible visible).1
  rw [entries] at values
  have state : now.state = preparation.state := (congrArg Node.state bared :)
  refine {
    identity := ⟨(congrArg Node.id bared :), (congrArg Node.name bared :),
      (congrArg Node.type bared :)⟩
    state := by rw [isState, state]
    description := (congrArg Node.description bared :)
    services := (congrArg Node.services bared :)
    values := fun property visible => ?_
    noOthers := fun property value isValue => ?_
    tags := by rw [tags, entries, enteredTags_eq_propertyTags declared each distinct values] }
  · obtain ⟨value, configured⟩ := each property visible
    obtain ⟨-, decoded, isDecoded, validated⟩ := (configuredValue_eq_ok_iff value).mp configured
    exact ⟨decoded, value, isDecoded, (validate_eq_ok_iff property decoded value).mpr validated,
      value?_of_configured distinct values visible configured⟩
  · by_contra unknown
    rw [values, entered_of_not_mem] at isValue
    · cases isValue
    · rw [keys_configuredEntries, List.mem_map]
      exact unknown

theorem leads_configureNode_replaced (sound : repository.graph.Sound)
    (found : repository.graph.node? id = some node) (content : NodeContent) :
    (configureNode id content).Leads repository
      (fun _ changed => ∃ given now,
        (Forest.tagsOrCreate content.tags).apply repository.graph.tags =
            (.ok given, changed.graph.tags) ∧
          changed.graph.node? id = some now ∧ Replaced repository node content given now ∧
            ∀ other, other ≠ id → (changed.graph.node? other).map Node.unreferred =
              (repository.graph.node? other).map Node.unreferred)
      (fun _ => True) := by
  rw [configureNode]
  refine Change.leads_ask_bind (fun preparation prepared => ?_) fun _ _ => trivial
  obtain ⟨-, each, entries⟩ := of_prepare found prepared
  have distinct := sound.listed.schema.nodup_visible node.type
  have settles := settles_of_configured (fun property visible =>
    (sound.listed.schema.property?_of_visible visible).1) each
  rw [← entries] at settles
  have filling := leads_fill_filled sound found content settles
    (by rwa [entries, keys_configuredEntries])
  refine Change.leads_within ((filling.and
    (leads_fill_confined sound.listed id content preparation)).imp ?_ fun _ _ => trivial)
  intro _ changed outcome
  obtain ⟨⟨given, filled⟩, confined⟩ := outcome
  obtain ⟨now, isNow, bared, tags, values⟩ := filled.node
  refine ⟨given, now, filled.tags, isNow,
    replaced_of_filled sound found prepared bared tags values, fun other different => ?_⟩
  have sameBared := filled.others other different
  have sameCarried := confined.others other different
  revert sameBared sameCarried
  cases changed.node? other <;> cases repository.graph.node? other <;> simp
  exact Node.unreferred_eq

/-- In a repository that was reached without defining a declared type anew, a node that was
configured holds what it was configured with, whatever it held before; the tags it names are
found, or else created, in their order.  Who refers to them apart, all other nodes stay as they
are. -/
theorem content_replaced (reachable : SteadilyReachable repository)
    (found : repository.graph.node? id = some node) {changed : Repository}
    (configured : (configureNode id content).apply repository = (.ok (), changed)) :
    ∃ given now,
      (Forest.tagsOrCreate content.tags).apply repository.graph.tags =
          (.ok given, changed.graph.tags) ∧
        changed.graph.node? id = some now ∧ Replaced repository node content given now ∧
          ∀ other, other ≠ id → (changed.graph.node? other).map Node.unreferred =
            (repository.graph.node? other).map Node.unreferred := by
  have leads := leads_configureNode_replaced (sound_of_steadilyReachable reachable) found content
  rw [Change.Leads, configured] at leads
  exact leads

/-- A node that holds a tag twice in a value and once more apart, itself, and a value of a property
that is not visible; another node has the tag as well. -/
def crowdedNode : Repository :=
  Operation.run
    [.addState "open" .plain, .newTag none "label", .newTag (some ⟨0⟩) "urgent",
      .addNodeType "Base" ⟨none, "", [("title", .text "string")]⟩,
      .addNodeType "Task" ⟨some "Base", "", [("title", .text "string"), ("next", .text "Task"),
        ("labels", .object [("type", .text "label"), ("list", .boolean true)])]⟩,
      .mutate (.addNode ⟨1⟩ "a"), .mutate (.addNode ⟨1⟩ "b"), .mutate (.addTag ⟨0⟩ ⟨1⟩),
      .mutate (.setProperty ⟨0⟩ ⟨⟨0⟩, 0⟩ (.text "x")),
      .mutate (.setPropertyNamed ⟨0⟩ "next" (.node ⟨0⟩)),
      .mutate (.setPropertyNamed ⟨0⟩ "labels" (.list [.tag ⟨1⟩, .tag ⟨1⟩])),
      .mutate (.addTag ⟨1⟩ ⟨1⟩)]
    .empty

theorem steadilyReachable_crowdedNode : SteadilyReachable crowdedNode :=
  Reached.empty.run (by decide)

/-- A tag that is not there yet is named twice. -/
def crowdedContent : NodeContent :=
  ⟨"second", some "open", [("labels", .array [.text "urgent", .text "urgent"])], [],
    ["team", "urgent", "team"]⟩

theorem content_replaced_crowdedNode :
    ∃ node changed given now,
      (configureNode ⟨0⟩ crowdedContent).apply crowdedNode = (.ok (), changed) ∧
        changed.graph.node? ⟨0⟩ = some now ∧ Replaced crowdedNode node crowdedContent given now ∧
          node.tags = [⟨1⟩, ⟨1⟩, ⟨1⟩] ∧ now.tags = [⟨2⟩, ⟨1⟩, ⟨1⟩, ⟨1⟩] := by
  have before : (crowdedNode.graph.node? ⟨0⟩).map Node.tags = some [⟨1⟩, ⟨1⟩, ⟨1⟩] := by
    decide +kernel
  have after : (((configureNode ⟨0⟩ crowdedContent).apply crowdedNode).2.graph.node? ⟨0⟩).map
      Node.tags = some [⟨2⟩, ⟨1⟩, ⟨1⟩, ⟨1⟩] := by
    decide +kernel
  have answered : ((configureNode ⟨0⟩ crowdedContent).apply crowdedNode).1.toOption = some () := by
    decide +kernel
  have configured : (configureNode ⟨0⟩ crowdedContent).apply crowdedNode =
      (.ok (), ((configureNode ⟨0⟩ crowdedContent).apply crowdedNode).2) := by
    rw [← eq_ok_of_toOption answered]
  obtain ⟨node, found, tags⟩ := Option.map_eq_some_iff.mp before
  obtain ⟨given, now, -, isNow, replaced, -⟩ :=
    content_replaced steadilyReachable_crowdedNode found configured
  rw [isNow, Option.map_some] at after
  exact ⟨node, _, given, now, configured, isNow, replaced, tags, Option.some.inj after⟩

end Repository

end LifecycleGraph
