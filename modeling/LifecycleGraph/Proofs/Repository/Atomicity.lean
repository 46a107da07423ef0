import LifecycleGraph.Proofs.Repository.Reference

/-!
# Changes that fail change nothing

Every change of nodes checks what it needs before it changes anything.  Only the
configuration of a node calls changes that may fail after its first step; what
was found when its content was checked stays true until it is used.
-/

set_option autoImplicit false

namespace LifecycleGraph

namespace Repository

open Graph

variable {repository : Repository} {start state : Graph} {id : NodeId}

/-! ## What checking a content finds -/

/-- A value can be given to a property at once. -/
def Acceptable (graph : Graph) (id : NodeId) (property : PropertyId) (value : Value) : Prop :=
  ∃ declared, graph.Offers id property declared ∧ graph.Validated declared value value ∧
    (declared.isTag = true → ∀ tag ∈ value.tags, graph.tags.contains tag = true)

theorem decode_tag (linked : repository.graph.tags.Linked) {data : Json} {type : DataType}
    {value : Value} (decoded : Converter.tag.decode data type repository.graph = .ok value) :
    ∃ tag, value = .tag tag ∧ repository.graph.tags.contains tag = true := by
  simp only [Converter.tag] at decoded
  cases isText : Converter.textOf? data with
  | none =>
      rw [isText] at decoded
      cases decoded
  | some name =>
      simp only [isText] at decoded
      have lookedUp {tag : TagId} (found : repository.graph.tags.lookup? name = some tag) :
          repository.graph.tags.contains tag = true :=
        Forest.contains_of_lookup? linked found
      split at decoded
      · rename_i tag found
        refine ⟨tag, (Except.ok.inj decoded).symm, ?_⟩
        split at found
        · rename_i ns
          rw [Option.orElse_eq_orElse, Option.orElse_eq_or, Option.or_eq_some_iff] at found
          rcases found with below | ⟨-, anywhere⟩
          · exact Forest.contains_of_lookupBelow? linked below
          · exact lookedUp anywhere
        · exact lookedUp found
      · cases decoded

theorem decodeItems_tag (linked : repository.graph.tags.Linked) {items : List Json}
    {type : DataType} {values : List Value}
    (decoded : repository.decodeItems Converter.tag type items = .ok values) :
    ∀ value ∈ values, ∃ tag, value = .tag tag ∧ repository.graph.tags.contains tag = true := by
  induction items generalizing values with
  | nil =>
      cases decoded
      exact fun value member => by cases member
  | cons item rest inductionHypothesis =>
      obtain ⟨first, isFirst, decoded⟩ := exists_of_bind_eq_ok decoded
      obtain ⟨others, areOthers, same⟩ := exists_of_bind_eq_ok decoded
      cases same
      intro value member
      rcases List.mem_cons.mp member with rfl | inOthers
      · exact decode_tag linked isFirst
      · exact inductionHypothesis areOthers value inOthers

/-- The tags that are read for a tag property are there. -/
theorem contains_of_decodeValue (linked : repository.graph.tags.Linked)
    (builtIn : repository.converters.byName.find? "tag" = some .tag) {property : Property}
    (isTag : property.isTag = true) {data : Json} {value : Value}
    (decoded : repository.decodeValue property data = .ok value) :
    ∀ tag ∈ value.tags, repository.graph.tags.contains tag = true := by
  obtain ⟨ns, isType⟩ := property.isTag_iff.mp isTag
  obtain ⟨converter, isConverter, decoded⟩ := exists_of_bind_eq_ok decoded
  have isBuiltIn : converter = .tag := by
    simp only [Converters.converterFor, isType, DataType.converterName?, builtIn] at isConverter
    exact (Except.ok.inj isConverter).symm
  subst isBuiltIn
  have single {data : Json} {held : Value}
      (isHeld : Converter.tag.decode data property.dataType repository.graph = .ok held) (tag : TagId)
      (same : Value.tag tag = held) : repository.graph.tags.contains tag = true := by
    obtain ⟨other, rfl, present⟩ := decode_tag linked isHeld
    cases same
    exact present
  intro tag member
  rw [Value.mem_tags_iff] at member
  split at decoded
  · split at decoded
    · cases decoded
      cases member
    · obtain ⟨values, areValues, rfl⟩ := exists_of_map_eq_ok decoded
      obtain ⟨other, same, present⟩ := decodeItems_tag linked areValues _ member
      cases same
      exact present
    · obtain ⟨held, isHeld, rfl⟩ := exists_of_map_eq_ok decoded
      exact single isHeld tag (List.mem_singleton.mp member)
  · split at decoded
    · cases decoded
      cases member
    · obtain ⟨other, rfl, present⟩ := decode_tag linked decoded
      exact single decoded tag (List.mem_singleton.mp member)

/-- The values that a content is read as can be given to the properties of the node. -/
theorem acceptable_of_configuredValues (listed : repository.graph.Listed)
    (builtIn : repository.converters.byName.find? "tag" = some .tag) {node : Node}
    (found : repository.graph.node? id = some node) {label : String} {content : NodeContent}
    {properties : List Property}
    (visible : ∀ property ∈ properties, property ∈ repository.graph.visibleProperties node.type)
    {values : List (PropertyId × Value)}
    (configured : repository.configuredValues label content properties = .ok values) :
    ∀ entry ∈ values, Acceptable repository.graph id entry.1 entry.2 := by
  induction properties generalizing values with
  | nil =>
      cases configured
      exact fun entry member => by cases member
  | cons property rest inductionHypothesis =>
      obtain ⟨value, isValue, configured⟩ := exists_of_bind_eq_ok configured
      obtain ⟨others, areOthers, same⟩ := exists_of_bind_eq_ok configured
      cases same
      intro entry member
      rcases List.mem_cons.mp member with rfl | inOthers
      · obtain ⟨isDeclared, below⟩ := listed.schema.property?_of_visible
          (visible property (List.mem_cons_self ..))
        unfold configuredValue at isValue
        simp only at isValue
        split at isValue
        · cases isValue
        · split at isValue
          · rename_i accepted read
            cases isValue
            obtain ⟨decoded, isDecoded, checked⟩ := exists_of_bind_eq_ok read
            have validated := (validate_eq_ok_iff property decoded value).mp checked
            refine ⟨property, ⟨isDeclared, node.type, typeOf?_of_node? found, below⟩,
              validated.again, fun isTag => ?_⟩
            rw [validated.tags_eq]
            exact contains_of_decodeValue listed.linked builtIn isTag isDecoded
          · cases isValue
      · exact inductionHypothesis
          (fun other inRest => visible other (List.mem_cons_of_mem _ inRest)) areOthers entry inOthers

/-- What is known when a content was checked for a node. -/
structure Prepared (graph : Graph) (id : NodeId) (content : NodeContent)
    (preparation : Preparation) : Prop where
  live : (graph.node? id).isSome = true
  state : ∀ target, preparation.state = some target → graph.state? target ≠ none
  values : ∀ entry ∈ preparation.values, Acceptable graph id entry.1 entry.2
  tags : ∀ name ∈ content.tags, ∀ part ∈ Text.parts '.' name, Forest.validName part = true

theorem prepared_of_prepare (listed : repository.graph.Listed)
    (builtIn : repository.converters.byName.find? "tag" = some .tag) {content : NodeContent}
    {preparation : Preparation} (prepared : repository.prepare id content = .ok preparation) :
    Prepared repository.graph id content preparation := by
  obtain ⟨node, isNode, prepared⟩ := exists_of_bind_eq_ok prepared
  have found := (nodeOrFault_eq_ok_iff id node).mp isNode
  obtain ⟨state, isState, prepared⟩ := exists_of_bind_eq_ok prepared
  simp only at prepared
  split at prepared
  · cases prepared
  obtain ⟨_, -, prepared⟩ := exists_of_bind_eq_ok prepared
  obtain ⟨values, areValues, prepared⟩ := exists_of_bind_eq_ok prepared
  split at prepared
  · cases prepared
  rename_i valid
  cases prepared
  refine {
    live := by rw [found]; rfl
    state := ?_
    values := acceptable_of_configuredValues listed builtIn found (fun _ member => member) areValues
    tags := ?_ }
  · intro target isTarget
    rw [show state = some target from isTarget] at isState
    unfold preparedState at isState
    split at isState
    · cases isState
    · split at isState
      · rename_i name held isHeld
        cases isState
        obtain ⟨slot, isSlot, rfl⟩ := Option.map_eq_some_iff.mp isHeld
        have below := (repository.graph.states.isSome_at?_iff slot).mpr
          (Roster.lt_size_of_slotOf? isSlot)
        exact Option.isSome_iff_ne_none.mp below
      · cases isState
  · -- Every part of a checked name is one that a tag can be made of.
    intro name isName part isPart
    have parts := List.find?_eq_none.mp valid name isName
    have notEmpty : part.isEmpty = false := by
      by_contra empty
      exact parts (List.any_eq_true.mpr ⟨part, isPart, by simpa using empty⟩)
    have noSeparator := Text.not_mem_of_mem_parts isPart
    simp [Forest.validName, notEmpty, noSeparator]

/-! ## Using it -/

/-- On the way of a configuration: the nodes are under the same types and states as at the
start, and no tag was taken away. -/
structure Filling (start state : Graph) : Prop where
  sound : state.Sound
  types : state.types = start.types
  states : state.states = start.states
  typeOf? : ∀ id, state.typeOf? id = start.typeOf? id
  tags : Forest.LinkedFrom start.tags state.tags

namespace Filling

theorem refl (sound : start.Sound) : Filling start start :=
  ⟨sound, rfl, rfl, fun _ => rfl, Forest.linkedFrom_self sound.listed.linked⟩

theorem step {changed : Graph} (filling : Filling start state) (sound : changed.Sound)
    (same : state.SameNodes changed) : Filling start changed where
  sound := sound
  types := same.types.trans filling.types
  states := same.states.trans filling.states
  typeOf? id := (same.typeOf? id).trans (filling.typeOf? id)
  tags := by
    rw [same.tags]
    exact filling.tags

theorem node?_ne_none (filling : Filling start state)
    (live : (start.node? id).isSome = true) : state.node? id ≠ none := by
  rw [← isSome_typeOf?, ← filling.typeOf?, isSome_typeOf?] at live
  exact Option.isSome_iff_ne_none.mp live

/-- What can be given at the start can be given later. -/
theorem acceptable (startSound : start.Sound) (filling : Filling start state)
    {property : PropertyId} {value : Value} (acceptable : Acceptable start id property value) :
    Acceptable state id property value := by
  obtain ⟨declared, offers, validated, present⟩ := acceptable
  have declares : start.Declares state := .of_types filling.types
  refine ⟨declared, offers.move startSound.listed declares (filling.typeOf? id),
    validated.of_admits ?_ ?_,
    fun isTag tag member => filling.tags.2.contains (present isTag tag member)⟩
  · intro base other _ _ admits
    exact admits.move startSound.listed declares (filling.typeOf? other)
  · intro ns tag isType member admits
    have there := present (declared.isTag_iff.mpr ⟨ns, isType⟩) tag member
    cases ns with
    | none => exact filling.tags.2.contains there
    | some ns =>
        have isa := filling.tags.2.isa startSound.listed.linked.rooted filling.tags.1.rooted there ns
        exact isa.trans admits

end Filling

theorem leads_clearNode (filling : Filling start state)
    (live : (start.node? id).isSome = true) :
    (clearNode id).Leads state (fun _ changed => Filling start changed) (fun _ => False) := by
  rw [clearNode]
  refine leads_nodeOrFault_bind (filling.node?_ne_none live) fun node found => ?_
  refine Change.leads_bind (fun _ changed => Filling start changed)
    ((leads_clearProperties filling.sound found).imp ?_ fun _ stopped => stopped) ?_
  · exact fun _ changed emptied => filling.step emptied.sound emptied.toSameNodes
  intro _ cleared cleaned
  refine leads_nodeOrFault_bind (cleaned.node?_ne_none live) fun node _ => ?_
  refine Change.leads_forEach _ cleaned fun tag _ state reached => ?_
  refine Change.leads_bind (fun _ changed => Filling start changed)
    ((leads_removeTag reached.sound id tag).imp ?_ ?_)
    fun _ _ kept => Change.leads_pure kept
  · intro _ changed outcome
    obtain ⟨sound, alike, -⟩ := outcome
    exact reached.step sound alike.toSameNodes
  · intro changed outcome
    obtain ⟨-, gone⟩ := outcome
    exact reached.node?_ne_none live gone

theorem leads_giveTag (filling : Filling start state) (live : (start.node? id).isSome = true)
    {name : String} (valid : ∀ part ∈ Text.parts '.' name, Forest.validName part = true) :
    (tagOrCreate name none >>= fun tag => addTag id tag).Leads state
      (fun _ changed => Filling start changed) (fun _ => False) := by
  refine Change.leads_bind
    (fun tag changed => Filling start changed ∧ changed.tags.contains tag = true)
    (Change.leads_within ((Forest.leads_tagOrCreate filling.sound.listed.linked name none).imp
      ?_ ?_)) ?_
  · intro tag tags outcome
    obtain ⟨grown, present⟩ := outcome
    refine ⟨⟨filling.sound.regrown grown state.states, filling.types, filling.states,
      filling.typeOf?, filling.tags.trans grown⟩, present⟩
  · intro tags outcome
    obtain ⟨-, ⟨parent, isParent, -⟩ | ⟨part, isPart, invalid⟩⟩ := outcome
    · cases isParent
    · rw [valid part isPart] at invalid
      cases invalid
  intro tag changed outcome
  obtain ⟨reached, present⟩ := outcome
  refine (leads_addTag reached.sound id tag).imp ?_ ?_
  · intro _ changed outcome
    obtain ⟨sound, alike⟩ := outcome
    exact reached.step sound alike.toSameNodes
  · intro later outcome
    obtain ⟨-, gone | gone⟩ := outcome
    · rw [present] at gone
      cases gone
    · exact reached.node?_ne_none live gone

/-- A content that was checked is given to the node without fail. -/
theorem leads_fill (sound : start.Sound) {content : NodeContent} {preparation : Preparation}
    (prepared : Prepared start id content preparation) :
    (fill id content preparation).Leads start (fun _ _ => True) (fun _ => False) := by
  have live := prepared.live
  rw [fill]
  refine Change.leads_bind _ (leads_clearNode (.refl sound) live) ?_
  intro _ cleared filling
  refine Change.leads_bind _ (Change.leads_forEach _ filling fun name isName state reached =>
    leads_giveTag reached live (prepared.tags name isName)) ?_
  intro _ tagged filling
  refine Change.leads_bind _ (Change.leads_forEach _ filling fun entry isEntry state reached => ?_) ?_
  · obtain ⟨declared, offers, validated, present⟩ :=
      reached.acceptable sound (prepared.values entry isEntry)
    refine (leads_setProperty reached.sound id entry.1 entry.2).imp ?_ ?_
    · intro _ changed outcome
      obtain ⟨changedSound, _, _, -, -, assigned⟩ := outcome
      exact reached.step changedSound assigned.toSameNodes
    · intro changed outcome
      obtain ⟨-, refused⟩ := outcome
      obtain ⟨isTag, tag, member, gone⟩ := refused declared entry.2 offers validated
      rw [present isTag tag member] at gone
      cases gone
  intro _ filled filling
  refine Change.leads_bind (fun _ _ => True) ((leads_setState filling.sound id _).imp ?_ ?_) ?_
  · exact fun _ _ _ => trivial
  · intro changed outcome
    obtain ⟨-, ⟨target, isTarget, missing⟩ | gone⟩ := outcome
    · rw [state?, filling.states, ← state?] at missing
      exact prepared.state target isTarget missing
    · exact filling.node?_ne_none live gone
  · exact fun _ _ _ => Change.leads_modify trivial

/-! ## All changes of nodes -/

theorem leads_configureNode (sound : repository.graph.Sound)
    (builtIn : repository.converters.byName.find? "tag" = some .tag) (id : NodeId)
    (content : NodeContent) :
    (configureNode id content).Leads repository (fun _ _ => True)
      (fun changed => changed = repository) := by
  rw [configureNode]
  refine Change.leads_ask_bind (fun preparation isPrepared => ?_) fun _ _ => rfl
  have prepared := prepared_of_prepare sound.listed builtIn isPrepared
  exact (leads_onGraph (leads_fill sound prepared)).imp (fun _ _ _ => trivial)
    fun _ stopped => stopped.elim

/-- A change of the graph that is stopped with the graph unchanged. -/
theorem unchanged_of_onGraph {α : Type} {change : Change Graph α} {post : α → Graph → Prop}
    (leads : change.Leads repository.graph post (fun changed => changed = repository.graph)) :
    (onGraph change).Leads repository (fun _ _ => True) (fun changed => changed = repository) := by
  refine Change.leads_within (leads.imp (fun _ _ _ => trivial) ?_)
  intro changed same
  obtain rfl := same
  rfl

theorem leads_setPropertyNamed {graph : Graph} (sound : graph.Sound) (id : NodeId) (name : String)
    (value : Value) :
    (setPropertyNamed id name value).Leads graph (fun _ _ => True)
      (fun changed => changed = graph) := by
  rw [setPropertyNamed]
  refine Change.leads_ask_bind (fun node _ => ?_) fun _ _ => rfl
  refine Change.leads_ask_bind (fun property _ => ?_) fun _ _ => rfl
  exact (leads_setProperty sound id property value).imp (fun _ _ _ => trivial)
    fun _ stopped => stopped.1

/-- A change of nodes, or the removal of a tag, that fails leaves the repository as it was. -/
theorem unchanged_of_failed (reachable : SteadilyReachable repository)
    (builtIn : repository.converters.byName.find? "tag" = some .tag) (mutation : Mutation)
    {fault : Fault} (failed : (mutation.perform.apply repository).1 = .error fault) :
    (mutation.perform.apply repository).2 = repository := by
  have sound := sound_of_steadilyReachable reachable
  have answerless {α : Type} {change : Change Repository α}
      (leads : change.Leads repository (fun _ _ => True) (fun changed => changed = repository)) :
      (change >>= fun _ => pure ()).Leads repository (fun _ _ => True)
        (fun changed => changed = repository) :=
    Change.leads_bind _ leads fun _ _ _ => Change.leads_pure trivial
  suffices leads : mutation.perform.Leads repository (fun _ _ => True)
      (fun changed => changed = repository) from leads.state_of_error failed
  cases mutation with
  | addNode type name =>
      exact answerless (unchanged_of_onGraph (leads_addNode type name repository.graph))
  | configureNode id content => exact leads_configureNode sound builtIn id content
  | setProperty id property value =>
      exact unchanged_of_onGraph ((leads_setProperty sound id property value).imp
        (fun _ _ post => post) fun _ stopped => stopped.1)
  | setPropertyNamed id name value =>
      exact unchanged_of_onGraph (leads_setPropertyNamed sound id name value)
  | addTag id tag =>
      exact unchanged_of_onGraph ((leads_addTag sound id tag).imp (fun _ _ post => post)
        fun _ stopped => stopped.1)
  | removeTag id tag =>
      exact answerless (unchanged_of_onGraph ((leads_removeTag sound id tag).imp
        (fun _ _ post => post) fun _ stopped => stopped.1))
  | setState id state =>
      exact unchanged_of_onGraph ((leads_setState sound id state).imp (fun _ _ post => post)
        fun _ stopped => stopped.1)
  | removeNode id =>
      exact unchanged_of_onGraph ((leads_removeNode sound id).imp (fun _ _ post => post)
        fun _ stopped => stopped.1)
  | removeTagTree tag =>
      exact answerless (unchanged_of_onGraph ((leads_removeTagTree sound.listed tag).imp
        (fun _ _ post => post) fun _ stopped => stopped.elim))

/-- A content whose second property names a node that is not there. -/
def contentOfNobody : NodeContent :=
  { NodeContent.blank with properties := [("parts", .text "b"), ("next", .text "nobody")] }

theorem unchanged_of_failed_contentOfNobody :
    ∃ fault, ((Mutation.configureNode ⟨0⟩ contentOfNobody).perform.apply nodesWithParts).1 =
        .error fault ∧
      ((Mutation.configureNode ⟨0⟩ contentOfNobody).perform.apply nodesWithParts).2 =
        nodesWithParts := by
  have builtIn : nodesWithParts.converters.byName.find? "tag" = some .tag := by rfl
  have noAnswer : ((Mutation.configureNode ⟨0⟩ contentOfNobody).perform.apply
      nodesWithParts).1.toOption.isNone = true := by
    decide
  cases failed : ((Mutation.configureNode ⟨0⟩ contentOfNobody).perform.apply nodesWithParts).1 with
  | ok answer =>
      rw [failed] at noAnswer
      cases noAnswer
  | error fault =>
      exact ⟨fault, rfl, unchanged_of_failed steadilyReachable_nodesWithParts builtIn _ failed⟩

end Repository

end LifecycleGraph
