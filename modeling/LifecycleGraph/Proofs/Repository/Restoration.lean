import LifecycleGraph.Proofs.Repository.Dumping
import LifecycleGraph.Proofs.Repository.Refilling
import LifecycleGraph.Proofs.Repository.Rereading

/-!
# Nodes that are configured with what was dumped of them

What is dumped of a node leaves out the properties without values and the tags that come
with values.  Where configuring a node without these gives it none of them either, and
where the other values are written by converters that read them back, a node that is
configured with what was dumped of it is dumped as the same again.
-/

set_option autoImplicit false

namespace LifecycleGraph

namespace Repository

open Graph

variable {repository : Repository} {id : NodeId} {node : Node} {content : NodeContent}
  {label : String} {property : Property} {members : Json.Members}

/-! ## Values that are configured -/

theorem configuredValue_eq_ok_iff (value : Value) :
    repository.configuredValue label content property = .ok value ↔
      ((configuredData content property).isNull && property.required) = false ∧
        ∃ decoded, repository.decodeValue property (configuredData content property) =
          .ok decoded ∧ repository.graph.Validated property decoded value := by
  unfold configuredValue
  simp only
  cases missing : (configuredData content property).isNull && property.required with
  | true => simp
  | false =>
      simp only [Bool.false_eq_true, if_false, true_and]
      constructor
      · intro configured
        split at configured
        · rename_i accepted read
          cases configured
          obtain ⟨decoded, isDecoded, checked⟩ := exists_of_bind_eq_ok read
          exact ⟨decoded, isDecoded, (validate_eq_ok_iff property decoded value).mp checked⟩
        · cases configured
      · intro given
        obtain ⟨decoded, isDecoded, validated⟩ := given
        rw [isDecoded, Except.bind, (validate_eq_ok_iff property decoded value).mpr validated]

/-- The values that properties are configured with, under their handles. -/
def configuredEntries (repository : Repository) (label : String) (content : NodeContent)
    (properties : List Property) : List (PropertyId × Value) :=
  properties.map fun property =>
    (property.id, (repository.configuredValue label content property).toOption.getD .null)

theorem configuredValues_eq {properties : List Property}
    (each : ∀ property ∈ properties, ∃ value,
      repository.configuredValue label content property = .ok value) :
    repository.configuredValues label content properties =
      .ok (repository.configuredEntries label content properties) := by
  induction properties with
  | nil => rfl
  | cons property rest inductionHypothesis =>
      obtain ⟨value, isValue⟩ := each property (List.mem_cons_self ..)
      have others := inductionHypothesis fun other inRest =>
        each other (List.mem_cons_of_mem _ inRest)
      rw [configuredValues, isValue, others]
      simp only [ok_bind, configuredEntries, List.map_cons, isValue]
      rfl

theorem keys_configuredEntries (properties : List Property) :
    (repository.configuredEntries label content properties).map Prod.fst =
      properties.map Property.id := by
  rw [configuredEntries, List.map_map]
  rfl

/-- A property that is left out of a content is given no value. -/
def leavesOut (repository : Repository) (label : String) (property : Property) : Bool :=
  match repository.configuredValue label .blank property with
  | .ok value => value.items.isEmpty
  | .error _ => false

/-- So it is with properties that are not required and have no default. -/
theorem leavesOut_of_optional (optional : property.required = false)
    (plain : property.default = none) {converter : Converter}
    (isConverter : repository.converters.converterFor property.dataType = .ok converter)
    (label : String) : repository.leavesOut label property = true := by
  let nothing : Value := if property.list then .list [] else .null
  have data : configuredData .blank property = .null := by
    simp [configuredData, NodeContent.blank, Json.member?, plain]
  have accepted : repository.graph.Validated property nothing nothing := by
    by_cases list : property.list = true
    · simp only [nothing, list, if_true]
      exact .list list .nil
    · simp only [nothing, list, Bool.false_eq_true, if_false]
      exact .null
  have configured : repository.configuredValue label .blank property = .ok nothing := by
    refine (configuredValue_eq_ok_iff nothing).mpr ⟨?_, nothing, ?_, accepted⟩
    · rw [optional, Bool.and_false]
    · rw [data, decodeValue_null isConverter]
  have empty : nothing.items = [] := by
    by_cases list : property.list = true <;> simp [nothing, list, Value.items]
  rw [leavesOut, configured]
  simp [empty]

theorem configuredValue_of_absent (absent : Json.member? property.name content.properties = none) :
    repository.configuredValue label content property =
      repository.configuredValue label .blank property := by
  have nothing : Json.member? property.name NodeContent.blank.properties = none := rfl
  have data : configuredData content property = configuredData .blank property := by
    rw [configuredData, configuredData, absent, nothing]
  rw [configuredValue, configuredValue, data]

/-- What a value does that is given to a property for what a node holds there. -/
structure Restores (repository : Repository) (node : Node) (property : Property) (value : Value) :
    Prop where
  accepted : repository.graph.Validated property value value
  present : property.isTag = true → ∀ tag ∈ value.tags, repository.graph.tags.contains tag = true
  omitted : node.value? property.id = none → value.items = []
  held : ∀ held, node.value? property.id = some held → value.items ≠ [] ∧
    (property.isTag = true → value = held) ∧ ∀ changed, repository.graph.SameBared changed →
      { repository with graph := changed }.encodeValue property value =
        repository.encodeValue property held

/-- What dumping leaves out or puts together makes no difference to a node: properties without
values are left without them, the converters of the others read back what they write, the
services take what they are configured with, and the tags of its own are different and not
mistaken for those of its values. -/
structure Restorable (repository : Repository) (id : NodeId) (node : Node) : Prop where
  omits : ∀ property ∈ repository.graph.visibleProperties node.type,
    node.value? property.id = none →
      repository.leavesOut (repository.graph.label id) property = true
  converts : ∀ property ∈ repository.graph.visibleProperties node.type,
    ∀ value, node.value? property.id = some value → repository.Converts property value
  serves : repository.checkServices (repository.graph.label id) node.services.entries = .ok ()
  once : (repository.tagsApart node).Nodup
  apart : ownTags
    (repository.tagsApart node ++
      propertyTags node (repository.graph.visibleProperties node.type))
    (propertyTags node (repository.graph.visibleProperties node.type)) =
      repository.tagsApart node

/-- The state of a node is found by its name. -/
theorem preparedState_stateName (ordered : repository.graph.Ordered) {state : Option StateId}
    (declared : ∀ target, state = some target → target.index < repository.graph.states.size)
    (label : String) :
    repository.preparedState label (state.map repository.graph.stateName) = .ok state := by
  cases state with
  | none => rfl
  | some target =>
      rw [Option.map_some, preparedState]
      simp only [ordered.stateId?_stateName (declared target rfl)]

/-- A node of which members are dumped that it can be configured with again, in a repository
that is in order. -/
structure Restoring (repository : Repository) (id : NodeId) (node : Node)
    (members : Json.Members) : Prop where
  sound : repository.graph.Sound
  proper : repository.graph.Proper
  ordered : repository.graph.Ordered
  unambiguous : repository.graph.Unambiguous
  found : repository.graph.node? id = some node
  restorable : repository.Restorable id node
  dumped : repository.dumpProperties node (repository.graph.visibleProperties node.type) =
    .ok members

namespace Restoring

/-- The values that the node is configured with. -/
def entries (repository : Repository) (id : NodeId) (node : Node) (members : Json.Members) :
    List (PropertyId × Value) :=
  repository.configuredEntries (repository.graph.label id) (repository.contentOf node members)
    (repository.graph.visibleProperties node.type)

variable (restoring : Restoring repository id node members)

include restoring

/-- A property without a value, of which nothing is dumped, is left without one. -/
theorem exists_restores_of_none
    (visible : property ∈ repository.graph.visibleProperties node.type)
    (isNone : node.value? property.id = none)
    (absent : Json.member? property.name members = none) :
    ∃ value, repository.configuredValue (repository.graph.label id)
        (repository.contentOf node members) property = .ok value ∧
      Restores repository node property value := by
  have leaves := restoring.restorable.omits property visible isNone
  rw [configuredValue_of_absent absent]
  rw [leavesOut] at leaves
  split at leaves
  · rename_i value configured
    have empty : value.items = [] := by simpa using leaves
    obtain ⟨-, decoded, -, validated⟩ := (configuredValue_eq_ok_iff value).mp configured
    refine ⟨value, configured, validated.again, fun _ tag member => ?_, fun _ => empty, ?_⟩
    · rw [Value.tags, empty] at member
      cases member
    · intro held isHeld
      rw [isNone] at isHeld
      cases isHeld
  · cases leaves

/-- What is dumped of a value is read as a value that restores it. -/
theorem exists_restores_of_held
    (visible : property ∈ repository.graph.visibleProperties node.type) {held : Value}
    (isValue : node.value? property.id = some held) {data : Json}
    (isData : repository.encodeValue property held = .ok data)
    (isMember : Json.member? property.name members = some data) :
    ∃ value, repository.configuredValue (repository.graph.label id)
        (repository.contentOf node members) property = .ok value ∧
      Restores repository node property value := by
  obtain ⟨declared, offers, notEmpty, fits⟩ := restoring.sound.referenced.held
    ((valueAt?_of_node? restoring.found property.id).trans isValue)
  obtain ⟨isDeclared, -⟩ := restoring.sound.listed.schema.property?_of_visible visible
  obtain rfl := Option.some.inj (isDeclared.symm.trans offers.1)
  have converts := restoring.restorable.converts property visible held isValue
  have again := rereads restoring.sound.listed restoring.proper restoring.unambiguous converts
    (accepted_of_encodeValue converts fits isData) notEmpty isData
  have isTagged (isTag : property.isTag = true) :
      reread repository.graph property held = held := by
    obtain ⟨ns, isType⟩ := property.isTag_iff.mp isTag
    exact if_neg (by simp [isType])
  have given : configuredData (repository.contentOf node members) property = data := by
    simp [configuredData, contentOf, isMember, again.notNull]
  refine ⟨reread repository.graph property held, ?_, again.accepted, ?_, ?_, ?_⟩
  · refine (configuredValue_eq_ok_iff _).mpr ⟨?_, _, ?_, again.accepted⟩
    · rw [given, again.notNull, Bool.false_and]
    · rw [given]
      exact again.read
  · intro isTag tag member
    rw [isTagged isTag] at member
    obtain ⟨ns, isType⟩ := property.isTag_iff.mp isTag
    obtain ⟨past, accepted⟩ := fits.accepted
    exact contains_of_encodeValue converts accepted isData isType member
  · intro isNone
    rw [isValue] at isNone
    cases isNone
  · intro other isOther
    obtain rfl := Option.some.inj (isValue.symm.trans isOther)
    refine ⟨again.notEmpty, isTagged, fun changed same => ?_⟩
    rw [encodeValue_of_sameBared converts same, again.written, isData]

/-- A visible property takes back what is dumped of its value, or nothing. -/
theorem exists_restores (visible : property ∈ repository.graph.visibleProperties node.type) :
    ∃ value, repository.configuredValue (repository.graph.label id)
        (repository.contentOf node members) property = .ok value ∧
      Restores repository node property value := by
  have distinct : ((repository.graph.visibleProperties node.type).map Property.name).Nodup :=
    (Typed.names_of_withoutHidden [] _).1
  obtain ⟨absent, present⟩ := member?_of_dumpProperties distinct restoring.dumped visible
  cases isValue : node.value? property.id with
  | none => exact restoring.exists_restores_of_none visible isValue (absent isValue)
  | some held =>
      obtain ⟨data, isData, isMember⟩ := present held isValue
      exact restoring.exists_restores_of_held visible isValue isData isMember

/-- Each value that is given restores one, or none. -/
theorem restores_of_mem {entry : PropertyId × Value}
    (member : entry ∈ entries repository id node members) :
    ∃ property ∈ repository.graph.visibleProperties node.type, entry.1 = property.id ∧
      Restores repository node property entry.2 := by
  obtain ⟨property, visible, rfl⟩ := List.mem_map.mp member
  obtain ⟨value, configured, restores⟩ := restoring.exists_restores visible
  refine ⟨property, visible, rfl, ?_⟩
  rw [configured]
  exact restores

theorem exists_mem_entries (visible : property ∈ repository.graph.visibleProperties node.type) :
    ∃ value, (property.id, value) ∈ entries repository id node members ∧
      Restores repository node property value := by
  obtain ⟨value, configured, restores⟩ := restoring.exists_restores visible
  refine ⟨value, List.mem_map.mpr ⟨property, visible, ?_⟩, restores⟩
  rw [configured]
  rfl

theorem nodup_entries : ((entries repository id node members).map Prod.fst).Nodup := by
  rw [entries, keys_configuredEntries]
  exact restoring.sound.listed.schema.nodup_visible node.type

/-! ### Tags -/

theorem find?_of_mem_tagsApart {tag : TagId} (member : tag ∈ repository.tagsApart node) :
    ∃ entry, repository.graph.tags.find? tag = some entry :=
  (Forest.contains_iff tag).mp (restoring.sound.listed.carried
    (entryOf?_of_node? restoring.found) (mem_of_mem_ownTags member))

/-- The tags that are dumped are found by their names. -/
theorem lookup?_of_tagsApart :
    List.Forall₂ (fun name tag => repository.graph.tags.lookup? name = some tag)
      (repository.contentOf node members).tags (repository.tagsApart node) := by
  refine List.forall₂_map_left_iff.mpr (List.forall₂_same.mpr fun tag member => ?_)
  obtain ⟨entry, isEntry⟩ := restoring.find?_of_mem_tagsApart member
  exact Forest.lookup?_absoluteName restoring.sound.listed.linked restoring.unambiguous.tags isEntry

/-- Their names have valid parts. -/
theorem validName_of_tagsApart :
    ∀ name ∈ (repository.contentOf node members).tags, ∀ part ∈ Text.parts '.' name,
      Forest.validName part = true := by
  intro name isName part isPart
  obtain ⟨tag, member, rfl⟩ := List.mem_map.mp isName
  obtain ⟨entry, isEntry⟩ := restoring.find?_of_mem_tagsApart member
  rw [restoring.sound.listed.linked.parts_absoluteName isEntry] at isPart
  exact restoring.sound.listed.linked.valid_path isPart

/-- The tags that come with the values come with those that are given. -/
theorem enteredTags_eq :
    repository.graph.enteredTags (entries repository id node members) =
      propertyTags node (repository.graph.visibleProperties node.type) := by
  rw [enteredTags, entries, configuredEntries, List.flatMap_map, propertyTags]
  refine List.flatMap_congr fun property visible => ?_
  obtain ⟨value, configured, restores⟩ := restoring.exists_restores visible
  obtain ⟨isDeclared, -⟩ := restoring.sound.listed.schema.property?_of_visible visible
  rw [configured, tagsUnder, isDeclared, Option.any_some]
  by_cases isTag : property.isTag = true
  · simp only [isTag, if_true]
    cases isValue : node.value? property.id with
    | none => simp [Except.toOption, Value.tags, restores.omitted isValue]
    | some held =>
        obtain ⟨-, same, -⟩ := restores.held held isValue
        rw [same isTag]
        rfl
  · simp only [isTag, Bool.false_eq_true, if_false]

/-! ### Configuring -/

/-- What is dumped of a node passes the check. -/
theorem prepare_dumped :
    repository.prepare id (repository.contentOf node members) =
      .ok ⟨node.state, entries repository id node members⟩ := by
  have values := configuredValues_eq fun property visible =>
    (restoring.exists_restores visible).imp fun _ both => both.1
  have known : ((repository.contentOf node members).properties.find? fun entry =>
      (repository.graph.visibleProperties node.type).all (·.name != entry.1)) = none := by
    refine List.find?_eq_none.mpr fun entry member unknown => ?_
    obtain ⟨property, visible, isName⟩ := names_of_dumpProperties restoring.dumped entry member
    simpa [isName] using List.all_eq_true.mp unknown property visible
  have valid : ((repository.contentOf node members).tags.find? fun name =>
      (Text.parts '.' name).any String.isEmpty) = none := by
    refine List.find?_eq_none.mpr fun name isName isEmpty => ?_
    obtain ⟨part, isPart, empty⟩ := List.any_eq_true.mp isEmpty
    have isValid := restoring.validName_of_tagsApart name isName part isPart
    simp [Forest.validName, empty] at isValid
  have isState : repository.preparedState (repository.graph.label id)
      (repository.contentOf node members).state = .ok node.state :=
    preparedState_stateName restoring.ordered (restoring.proper id node restoring.found).state _
  have serves : repository.checkServices (repository.graph.label id)
      (repository.contentOf node members).services = .ok () := restoring.restorable.serves
  rw [prepare, nodeOrFault, restoring.found]
  simp only [ok_bind, isState, known, serves, values, valid]
  rfl

/-- The values that are given can be given. -/
theorem acceptable {entry : PropertyId × Value}
    (member : entry ∈ entries repository id node members) :
    Acceptable repository.graph id entry.1 entry.2 := by
  obtain ⟨property, visible, isId, restores⟩ := restoring.restores_of_mem member
  obtain ⟨isDeclared, below⟩ := restoring.sound.listed.schema.property?_of_visible visible
  rw [isId]
  exact ⟨property, ⟨isDeclared, node.type, typeOf?_of_node? restoring.found, below⟩,
    restores.accepted, restores.present⟩

theorem prepared : Prepared repository.graph id (repository.contentOf node members)
    ⟨node.state, entries repository id node members⟩ where
  live := by
    rw [restoring.found]
    rfl
  state target isTarget := by
    have declared := (restoring.proper id node restoring.found).state target isTarget
    exact Option.isSome_iff_ne_none.mp
      ((repository.graph.states.isSome_at?_iff target.index).mpr declared)
  values _ member := restoring.acceptable member
  tags := restoring.validName_of_tagsApart

section Filled

variable {final : Graph} {now : Node} (values : ∀ property, now.value? property =
  entered (entries repository id node members) property)

include values

/-- A visible property has what restores its value, if that has items. -/
theorem value?_of_entered (visible : property ∈ repository.graph.visibleProperties node.type) :
    ∃ value, Restores repository node property value ∧
      now.value? property.id = if value.items.isEmpty then none else some value := by
  obtain ⟨value, member, restores⟩ := restoring.exists_mem_entries visible
  exact ⟨value, restores, (values property.id).trans
    (entered_of_mem restoring.nodup_entries member)⟩

theorem propertyTags_of_entered :
    propertyTags now (repository.graph.visibleProperties node.type) =
      propertyTags node (repository.graph.visibleProperties node.type) := by
  refine List.flatMap_congr fun property visible => ?_
  obtain ⟨value, restores, isValue⟩ := restoring.value?_of_entered values visible
  by_cases isTag : property.isTag = true
  · simp only [isTag, if_true, isValue]
    cases wasValue : node.value? property.id with
    | none => simp [restores.omitted wasValue]
    | some held =>
        obtain ⟨notEmpty, same, -⟩ := restores.held held wasValue
        rw [same isTag] at notEmpty ⊢
        simp [notEmpty]
  · simp only [isTag, Bool.false_eq_true, if_false]

theorem dumpProperties_of_entered (same : repository.graph.SameBared final) :
    { repository with graph := final }.dumpProperties now
      (repository.graph.visibleProperties node.type) = .ok members := by
  refine dumpProperties_congr restoring.dumped fun property visible => ?_
  obtain ⟨value, restores, isValue⟩ := restoring.value?_of_entered values visible
  constructor
  · intro wasNone
    simp [isValue, restores.omitted wasNone]
  · intro held data wasValue isData
    obtain ⟨notEmpty, -, written⟩ := restores.held held wasValue
    refine ⟨value, ?_, (written final same).trans isData⟩
    simp [isValue, notEmpty]

end Filled

/-- Then the node is dumped as before. -/
theorem dumpNode_of_filled {given : List TagId} {final : Graph}
    (filled : Filled repository.graph id node (repository.contentOf node members)
      ⟨node.state, entries repository id node members⟩ given final) :
    { repository with graph := final }.dumpNode id = .ok (repository.contentOf node members) := by
  have known := Forest.tagsOrCreate_of_known restoring.lookup?_of_tagsApart
  obtain ⟨isGiven, tags⟩ := Prod.mk.inj (filled.tags.symm.trans known)
  obtain rfl := Except.ok.inj isGiven
  have own : refilled (repository.contentOf node members)
      ⟨node.state, entries repository id node members⟩ node = node := by
    have services := (restoring.proper id node restoring.found).services.ofList_entries
    rw [refilled, contentOf, services]
  have same := filled.sameBared restoring.found own tags
  obtain ⟨now, isNow, bared, flat, values⟩ := filled.node
  rw [own] at bared
  rw [firstOccurrences_of_nodup restoring.restorable.once, restoring.enteredTags_eq] at flat
  have type : now.type = node.type := (congrArg Node.type bared :)
  have description : now.description = node.description := (congrArg Node.description bared :)
  have state : now.state = node.state := (congrArg Node.state bared :)
  have services : now.services = node.services := (congrArg Node.services bared :)
  have visible : final.visibleProperties now.type =
      repository.graph.visibleProperties node.type := by
    rw [visibleProperties_of_types filled.types, type]
  have stateNames : final.stateName = repository.graph.stateName := by
    funext id
    rw [stateName, stateName, state?, state?, filled.states]
  have apart : { repository with graph := final }.tagsApart now = repository.tagsApart node := by
    rw [tagsApart]
    simp only [visible, flat, restoring.propertyTags_of_entered values]
    exact restoring.restorable.apart
  have dumped := restoring.dumpProperties_of_entered values same
  rw [dumpNode_of_node? isNow]
  simp only [visible, dumped, Except.map, contentOf, description, state, services, stateNames,
    apart, tags]

/-- A node that is configured with what is dumped of it is dumped as the same again. -/
theorem leads_configureNode :
    (configureNode id (repository.contentOf node members)).Leads repository
      (fun _ changed => changed.dumpNode id = .ok (repository.contentOf node members))
      (fun _ => False) := by
  rw [configureNode]
  refine Change.leads_ask_bind (fun preparation isPrepared => ?_) fun fault refused => ?_
  rotate_left
  · rw [restoring.prepare_dumped] at refused
    cases refused
  rw [restoring.prepare_dumped] at isPrepared
  obtain rfl := Except.ok.inj isPrepared
  refine Change.leads_within (((leads_fill restoring.sound restoring.prepared).and
    (leads_fill_filled restoring.sound restoring.found _
      (fun _ member => (restoring.acceptable member).settles) restoring.nodup_entries)).imp
        ?_ fun _ both => both.1)
  intro _ final outcome
  obtain ⟨-, given, filled⟩ := outcome
  exact restoring.dumpNode_of_filled filled

end Restoring

/-! ## Dumping and configuring -/

/-- Configuring the node with what is dumped of it succeeds, and it is dumped as the same then. -/
def Redumps (repository : Repository) (id : NodeId) : Prop :=
  ∀ content, repository.dumpNode id = .ok content →
    ((configureNode id content).apply repository).1 = .ok () ∧
      ((configureNode id content).apply repository).2.dumpNode id = .ok content

/-- In a repository that was reached without defining a declared type anew, where names tell
tags and nodes apart and no name of a type has a colon, a node to which it makes no difference
what dumping leaves out is dumped as the same again. -/
theorem redumps_of_restorable (reachable : SteadilyReachable repository)
    (unambiguous : repository.graph.Unambiguous)
    (found : repository.graph.node? id = some node) (restorable : repository.Restorable id node) :
    repository.Redumps id := by
  intro content dumped
  rw [dumpNode_of_node? found] at dumped
  obtain ⟨members, areMembers, rfl⟩ := exists_of_map_eq_ok dumped
  have restoring : Restoring repository id node members :=
    ⟨sound_of_steadilyReachable reachable, Reached.proper reachable, Reached.ordered reachable,
      unambiguous, found, restorable, areMembers⟩
  exact restoring.leads_configureNode.answer_of_never

/-- With the converters that are built in, it can be computed that dumping makes no difference. -/
def isRestorable (repository : Repository) (id : NodeId) (node : Node) : Bool :=
  let visible := repository.graph.visibleProperties node.type
  let accounted := propertyTags node visible
  let own := repository.tagsApart node
  (visible.all fun property =>
    match node.value? property.id with
    | none => repository.leavesOut (repository.graph.label id) property
    | some _ => (Converter.builtIn? property.dataType).isSome) &&
  (repository.checkServices (repository.graph.label id) node.services.entries).isOk &&
  decide own.Nodup && decide (ownTags (own ++ accounted) accounted = own)

theorem restorable_of_isRestorable (builtIn : repository.converters = .builtIn)
    (is : repository.isRestorable id node = true) : repository.Restorable id node := by
  simp only [isRestorable, Bool.and_eq_true, decide_eq_true_eq, List.all_eq_true] at is
  obtain ⟨⟨⟨values, serves⟩, once⟩, apart⟩ := is
  refine ⟨fun property visible isNone => ?_, fun property visible value isValue => ?_, ?_, once,
    apart⟩
  · have left := values property visible
    rwa [isNone] at left
  · have known := values property visible
    rw [isValue] at known
    obtain ⟨converter, isBuiltIn⟩ := Option.isSome_iff_exists.mp known
    intro other isOther
    rw [builtIn, Converter.converterFor_builtIn isBuiltIn] at isOther
    obtain rfl := Except.ok.inj isOther
    exact .inl isBuiltIn
  · cases answer : repository.checkServices (repository.graph.label id) node.services.entries with
    | error fault =>
        rw [answer] at serves
        cases serves
    | ok => rfl

/-- A node with a state, a service and a tag of its own, a tag and a node as values, a list, and
an untyped value that holds a tag and a node; one property has no value. -/
def taskNode : Repository :=
  Operation.run
    [.addState "open" .plain, .newTag none "label", .newTag (some ⟨0⟩) "urgent",
      .newTag none "team", .registerService "mail" .plain,
      .addNodeType "Task" ⟨none, "", [("title", .text "string"), ("done", .text "boolean"),
        ("sizes", .object [("type", .text "integer"), ("list", .boolean true)]),
        ("label", .text "label"), ("next", .text "Task"), ("notes", .text "any")]⟩,
      .mutate (.addNode ⟨0⟩ "a"), .mutate (.addNode ⟨0⟩ "b"),
      .mutate (.configureNode ⟨0⟩ ⟨"first", some "open",
        [("title", .text "x"), ("sizes", .array [.integer 2, .integer 1]),
          ("label", .text "urgent"), ("next", .text "b")],
        [("mail", .object [])], ["team"]⟩),
      .mutate (.setPropertyNamed ⟨0⟩ "notes" (.list [.tag ⟨1⟩, .list [.node ⟨1⟩]]))]
    .empty

theorem steadilyReachable_taskNode : SteadilyReachable taskNode :=
  Reached.empty.run (by decide)

set_option maxRecDepth 4000 in
/-- The node is dumped with all that it has, and as the same again. -/
theorem redumps_of_restorable_taskNode :
    ∃ content, taskNode.dumpNode ⟨0⟩ = .ok content ∧
      content.properties.map Prod.fst = ["title", "sizes", "label", "next", "notes"] ∧
      content.tags = ["team"] ∧
      ((configureNode ⟨0⟩ content).apply taskNode).1 = .ok () ∧
      ((configureNode ⟨0⟩ content).apply taskNode).2.dumpNode ⟨0⟩ = .ok content := by
  have unambiguous : taskNode.graph.Unambiguous :=
    unambiguous_of_nodup (by decide) (by decide) (by decide)
  have restorable : ((taskNode.graph.node? ⟨0⟩).any (taskNode.isRestorable ⟨0⟩)) = true := by
    decide
  obtain ⟨node, found, restorable⟩ := (Option.any_eq_true _ _).mp restorable
  have redumps := redumps_of_restorable steadilyReachable_taskNode unambiguous found
    (restorable_of_isRestorable rfl restorable)
  have shown : (taskNode.dumpNode ⟨0⟩).toOption.map (fun content =>
      (content.properties.map Prod.fst, content.tags)) =
        some (["title", "sizes", "label", "next", "notes"], ["team"]) := by
    decide
  cases dumped : taskNode.dumpNode ⟨0⟩ with
  | error fault =>
      rw [dumped] at shown
      cases shown
  | ok content =>
      rw [dumped] at shown
      obtain ⟨names, tags⟩ := Prod.mk.inj (Option.some.inj shown)
      exact ⟨content, rfl, names, tags, redumps content dumped⟩

/-! ## What does make a difference -/

/-- Whether a node that can be dumped is dumped in the same written form again. -/
def redumpsAs? (repository : Repository) (id : NodeId) : Option Bool :=
  (repository.dumpNode id).toOption.map fun content =>
    let outcome := (configureNode id content).apply repository
    outcome.1.isOk && (outcome.2.dumpNode id).toOption.any fun again =>
      (Json.object again.members).render == (Json.object content.members).render

theorem not_redumps_of_redumpsAs? (differs : repository.redumpsAs? id = some false) :
    ¬ repository.Redumps id := by
  intro redumps
  cases dumped : repository.dumpNode id with
  | error fault => simp [redumpsAs?, dumped, Except.toOption] at differs
  | ok content =>
      obtain ⟨configured, again⟩ := redumps content dumped
      simp [redumpsAs?, dumped, configured, again, Except.toOption, Except.isOk, Except.toBool]
        at differs

/-- Names tell tags and nodes apart after a run, but its first node is not dumped as the same. -/
structure Unrestored (operations : List Operation) : Prop where
  reachable : Reachable (Operation.run operations .empty)
  tags : (Operation.run operations .empty).graph.tags.DistinctlyNamed
  nodes : (Operation.run operations .empty).graph.DistinctlyNamed
  differs : ¬ (Operation.run operations .empty).Redumps ⟨0⟩

theorem unrestored_of_redumpsAs? {operations : List Operation}
    (tags : ((Operation.run operations .empty).graph.tags.arena.values.map Tag.name).Nodup)
    (nodes : ((Operation.run operations .empty).graph.nodes.values.map Node.name).Nodup)
    (differs : (Operation.run operations .empty).redumpsAs? ⟨0⟩ = some false) :
    Unrestored operations where
  reachable := reachable_run operations
  tags := Forest.distinctlyNamed_of_nodup tags
  nodes := distinctlyNamed_of_nodup nodes
  differs := not_redumps_of_redumpsAs? differs

/-- A type with a property, and a node of it. -/
def nodeWith (declared : Json) : List Operation :=
  [.addNodeType "Task" ⟨none, "", [("title", declared)]⟩, .mutate (.addNode ⟨0⟩ "a")]

/-- A property without a value that has a default, and one that is required. -/
def defaulted : List Operation :=
  nodeWith (.object [("type", .text "string"), ("default", .text "new")])

def required : List Operation :=
  nodeWith (.object [("type", .text "string"), ("required", .boolean true)])

/-- A tag is given, comes with a value as well, and then another one is given: the first is
accounted for by the value. -/
def mistaken : List Operation :=
  [.newTag none "red", .newTag none "blue"] ++ nodeWith (.text "tag") ++
    [.mutate (.addTag ⟨0⟩ ⟨0⟩), .mutate (.setProperty ⟨0⟩ ⟨⟨0⟩, 0⟩ (.tag ⟨0⟩)),
      .mutate (.addTag ⟨0⟩ ⟨1⟩)]

/-- A property that is not visible any more holds a tag twice. -/
def repeated : List Operation :=
  [.newTag none "red",
    .addNodeType "Base" ⟨none, "",
      [("title", .object [("type", .text "tag"), ("list", .boolean true)])]⟩,
    .addNodeType "Task" ⟨some "Base", "", [("title", .text "string")]⟩,
    .mutate (.addNode ⟨1⟩ "a"),
    .mutate (.setProperty ⟨0⟩ ⟨⟨0⟩, 0⟩ (.list [.tag ⟨0⟩, .tag ⟨0⟩]))]

/-- A property is made one of lists when it has a value. -/
def redefined : List Operation :=
  nodeWith (.text "string") ++
    [.mutate (.setProperty ⟨0⟩ ⟨⟨0⟩, 0⟩ (.text "x")),
      .addNodeType "Task" ⟨none, "",
        [("title", .object [("type", .text "string"), ("list", .boolean true)])]⟩]

/-- A service is registered anew with another schema when a node is configured for it. -/
def reregistered : List Operation :=
  [.registerService "mail" .plain] ++ nodeWith (.text "string") ++
    [.mutate (.configureNode ⟨0⟩ { NodeContent.blank with services := [("mail", .object [])] }),
      .registerService "mail"
        { ServiceEntry.plain with schema := .object [("type", .text "string")] }]

/-- A node of a type with a colon is held. -/
def coloned : List Operation :=
  nodeWith (.text "node") ++
    [.addNodeType "a:b" .plain, .mutate (.addNode ⟨1⟩ "b"),
      .mutate (.setProperty ⟨0⟩ ⟨⟨0⟩, 0⟩ (.node ⟨1⟩))]

/-- A converter reads something else than it writes. -/
def exclaimed : List Operation :=
  [.registerConverter "shout" { Converter.text with decode := fun _ _ _ => .ok (.text "!") }] ++
    nodeWith (.text "shout") ++ [.mutate (.setProperty ⟨0⟩ ⟨⟨0⟩, 0⟩ (.text "x"))]

/-- Each condition is needed. -/
theorem not_redumps :
    (Unrestored defaulted ∧ Unrestored required) ∧ (Unrestored mistaken ∧ Unrestored repeated) ∧
      Unrestored redefined ∧ Unrestored reregistered ∧ Unrestored coloned ∧
        Unrestored exclaimed := by
  have check {operations : List Operation}
      (holds : ((Operation.run operations .empty).graph.tags.arena.values.map Tag.name).Nodup ∧
        ((Operation.run operations .empty).graph.nodes.values.map Node.name).Nodup ∧
        (Operation.run operations .empty).redumpsAs? ⟨0⟩ = some false) : Unrestored operations :=
    unrestored_of_redumpsAs? holds.1 holds.2.1 holds.2.2
  refine ⟨⟨?_, ?_⟩, ⟨?_, ?_⟩, ?_, ?_, ?_, ?_⟩ <;> exact check (by decide)

end Repository

end LifecycleGraph
