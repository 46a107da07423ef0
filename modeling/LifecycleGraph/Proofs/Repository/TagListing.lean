import LifecycleGraph.Proofs.Repository.Integrity
import LifecycleGraph.Proofs.Repository.Reference

/-!
# Tags of values in flat lists

Where no value is given more of a tag than it holds already, and no tag is taken
from a node on its own, the flat list of each node covers the tags of its values in
every repository that is reached, and its graph passes the check of its integrity.
-/

set_option autoImplicit false

namespace LifecycleGraph

namespace Graph

variable {graph : Graph} {id : NodeId}

theorem Bare.tallied (bare : graph.Bare) : graph.Tallied where
  sound := bare.sound
  covered id node found := by
    rw [bare.node? id] at found
    cases found

theorem Tallied.regrown (tallied : graph.Tallied) {tags : Forest}
    (grown : Forest.LinkedFrom graph.tags tags) (states : Roster State Unit) :
    { graph with tags, states }.Tallied :=
  ⟨tallied.sound.regrown grown states, tallied.covered⟩

theorem growing_tallied : Growing Tallied where
  bare _ bare := bare.tallied
  linked _ tallied := tallied.sound.listed.linked
  grown {graph} _ tallied grown := tallied.regrown grown graph.states
  revised tallied _ := tallied.regrown (Forest.linkedFrom_self tallied.sound.listed.linked) _
  addNode type name graph tallied := by
    refine leads_tallied tallied ((maintained_sound.addNode type name graph tallied.sound).and
      (leads_addNode type name graph) |>.imp (fun _ _ both => both.1) fun _ both => both.2) ?_
    refine (leads_addNode type name graph).imp ?_ fun _ _ => trivial
    intro _ changed outcome
    obtain ⟨-, rfl, -⟩ := outcome
    exact tallied.covered.enroll type name

/-- New types hold nothing yet. -/
theorem Tallied.reshape {old new : Graph} (tallied : old.Tallied) (reshapes : old.Reshapes new)
    (declares : old.Declares new) : new.Tallied where
  sound := tallied.sound.reshape reshapes declares
  covered id node found tag := by
    have isNode : old.node? id = some node := by
      rwa [node?, reshapes.nodes, ← node?] at found
    have same : new.heldTags node.properties = old.heldTags node.properties := by
      unfold heldTags tagsUnder
      refine List.flatMap_congr fun entry member => ?_
      have isValue := ((tallied.sound.referenced.sorted isNode).1.mem_entries_iff _ _).mp member
      obtain ⟨declared, ⟨isDeclared, -⟩, -⟩ := tallied.sound.referenced.held
        ((valueAt?_of_node? isNode entry.1).trans isValue)
      rw [isDeclared, declares.property? isDeclared]
    rw [same]
    exact tallied.covered id node isNode tag

theorem leads_addTag_tallied (tallied : graph.Tallied) (id : NodeId) (tag : TagId) :
    (addTag id tag).Leads graph (fun _ => Tallied) Tallied :=
  leads_tallied tallied
    ((leads_addTag tallied.sound id tag).imp (fun _ _ outcome => outcome.1)
      fun _ stopped => stopped.1)
    (leads_addTag_covered tallied.covered id tag)

theorem leads_setState_tallied (tallied : graph.Tallied) (id : NodeId) (state : Option StateId) :
    (setState id state).Leads graph (fun _ => Tallied) Tallied :=
  leads_tallied tallied
    ((leads_setState tallied.sound id state).imp (fun _ _ outcome => outcome.1)
      fun _ stopped => stopped.1)
    (leads_setState_covered tallied.covered id state)

theorem leads_removeNode_tallied (tallied : graph.Tallied) (id : NodeId) :
    (removeNode id).Leads graph (fun _ => Tallied) Tallied :=
  leads_tallied tallied
    ((leads_removeNode tallied.sound id).imp (fun _ _ sound => sound) fun _ stopped => stopped.1)
    (leads_removeNode_covered tallied id)

theorem leads_removeTagTree_tallied (tallied : graph.Tallied) (tag : TagId) :
    (removeTagTree tag).Leads graph (fun _ => Tallied) Tallied := by
  refine (leads_removeTagTree tallied.sound.listed tag).imp ?_ fun _ => False.elim
  intro gone changed outcome
  obtain ⟨-, rfl⟩ := outcome
  exact ⟨tallied.sound.withoutTree tag, tallied.covered.withoutTree tag⟩

/-! ## Nodes without values -/

/-- A tallied graph with a node that holds nothing. -/
structure Blank (id : NodeId) (graph : Graph) : Prop extends Tallied graph where
  empty : ∀ property, graph.valueAt? id property = none

theorem Blank.of_alike {changed : Graph} (blank : Blank id graph) (tallied : changed.Tallied)
    (alike : graph.Alike changed) : Blank id changed :=
  ⟨tallied, fun property => (alike.holds.valueAt? id property).trans (blank.empty property)⟩

theorem keeps_removeTag_blank (id : NodeId) (tag : TagId) :
    (removeTag id tag).Keeps (Blank id) := by
  intro graph blank
  refine ((leads_removeTag blank.sound id tag).and
    (leads_removeTag_altered blank.sound.listed id tag)).imp ?_ ?_
  · intro _ changed outcome
    obtain ⟨⟨sound, alike, -⟩, altered⟩ := outcome
    refine blank.of_alike ⟨sound, blank.covered.alter altered fun node found other => ?_⟩ alike
    have nothing : graph.heldTags node.properties = [] := by
      refine heldTags_of_empty graph fun property => ?_
      exact (valueAt?_of_node? found property).symm.trans (blank.empty property)
    simp only [Node.carried, nothing, List.count_nil, Nat.zero_le]
  · intro changed outcome
    obtain ⟨-, rfl⟩ := outcome
    exact blank

end Graph

namespace Repository

open Graph

variable {repository : Repository} {graph : Graph} {id : NodeId}

/-! ## Configuring a node -/

/-- A node is cleared of values and then of tags, unless it is not there. -/
theorem leads_clearNode_tallied (tallied : graph.Tallied) (id : NodeId) :
    (clearNode id).Leads graph (fun _ => Blank id) Tallied := by
  rw [clearNode]
  refine leads_nodeOrFault_bind (fun _ => tallied) fun node found => ?_
  refine Change.leads_bind (fun _ => Blank id) ?_ ?_
  · refine ((leads_clearProperties tallied.sound found).and
      (keeps_clearProperties_tallied id node.properties.keys graph tallied)).imp ?_ ?_
    · exact fun _ cleared both => ⟨both.2, both.1.empty⟩
    · exact fun _ both => both.2
  intro _ cleared blank
  refine Change.leads_ask_bind (fun node _ => ?_) fun _ _ => blank.toTallied
  have keeps : (Change.forEach node.tags fun tag => do
      let _ ← removeTag id tag).Keeps (Blank id) :=
    Change.keeps_forEach fun tag => (keeps_removeTag_blank id tag).answerless
  exact (keeps cleared blank).imp (fun _ _ kept => kept) fun _ blank => blank.toTallied

theorem keeps_giveTag_blank (id : NodeId) (name : String) :
    (tagOrCreate name none >>= fun tag => addTag id tag).Keeps (Blank id) := by
  intro graph blank
  have regrown {tags : Forest} (grown : Forest.LinkedFrom graph.tags tags) :
      Blank id { graph with tags } :=
    ⟨blank.toTallied.regrown grown graph.states, blank.empty⟩
  refine Change.leads_bind (fun _ => Blank id) (Change.leads_within
    ((Forest.keeps_tagOrCreate name none graph.tags
      (Forest.linkedFrom_self blank.sound.listed.linked)).imp
        (fun _ _ grown => regrown grown) fun _ grown => regrown grown)) ?_
  intro tag state blank
  refine ((leads_addTag blank.sound id tag).and (leads_addTag_tallied blank.toTallied id tag)).imp
    ?_ ?_
  · intro _ changed outcome
    obtain ⟨⟨-, alike⟩, tallied⟩ := outcome
    exact blank.of_alike tallied alike
  · intro changed outcome
    obtain ⟨⟨rfl, -⟩, -⟩ := outcome
    exact blank

/-- Values for different properties of a node without values are each given more of no tag
than the property holds. -/
theorem leads_giveValues_tallied (blank : Blank id graph) {values : List (PropertyId × Value)}
    (distinct : (values.map Prod.fst).Nodup) :
    (Change.forEach values fun (property, value) => setProperty id property value).Leads graph
      (fun _ => Tallied) Tallied := by
  refine (Change.leads_forEach_progress
    (fun (done : List (PropertyId × Value)) state => state.Tallied ∧
      ∀ property, property ∉ done.map Prod.fst → state.valueAt? id property = none)
    ⟨blank.toTallied, fun property _ => blank.empty property⟩ ?_).imp
      (fun _ _ reached => reached.1) fun _ stopped => stopped
  intro done entry rest whole state reached
  obtain ⟨property, value⟩ := entry
  obtain ⟨tallied, untouched⟩ := reached
  rw [whole, List.map_append, List.map_cons] at distinct
  have isNew : property ∉ done.map Prod.fst := fun isDone =>
    List.disjoint_of_nodup_append distinct isDone (List.mem_cons_self ..)
  have noMore : NoMore ((state.valueAt? id property).getD .null) value := by
    rw [untouched property isNew]
    intro tag member
    cases member
  refine ((leads_setProperty tallied.sound id property value).and
    (leads_setProperty_tallied tallied id property fun _ => noMore)).imp ?_ fun _ both => both.2
  intro _ changed outcome
  obtain ⟨⟨-, _, _, -, -, assigned⟩, changedTallied⟩ := outcome
  refine ⟨changedTallied, fun other isOther => ?_⟩
  rw [List.map_append, List.mem_append, not_or] at isOther
  rw [assigned.valueAt?, if_neg]
  · exact untouched other isOther.1
  · intro both
    exact isOther.2 (List.mem_singleton.mpr both.2)

theorem keys_of_configuredValues {label : String} {content : NodeContent}
    {properties : List Property} {values : List (PropertyId × Value)}
    (configured : repository.configuredValues label content properties = .ok values) :
    values.map Prod.fst = properties.map Property.id := by
  induction properties generalizing values with
  | nil =>
      cases configured
      rfl
  | cons property rest inductionHypothesis =>
      obtain ⟨value, -, configured⟩ := exists_of_bind_eq_ok configured
      obtain ⟨others, areOthers, same⟩ := exists_of_bind_eq_ok configured
      cases same
      rw [List.map_cons, List.map_cons, inductionHypothesis areOthers]

theorem distinct_of_prepare (schema : repository.graph.Typed) {content : NodeContent}
    {preparation : Preparation} (prepared : repository.prepare id content = .ok preparation) :
    (preparation.values.map Prod.fst).Nodup := by
  obtain ⟨node, -, prepared⟩ := exists_of_bind_eq_ok prepared
  obtain ⟨state, -, prepared⟩ := exists_of_bind_eq_ok prepared
  simp only at prepared
  split at prepared
  · cases prepared
  obtain ⟨_, -, prepared⟩ := exists_of_bind_eq_ok prepared
  obtain ⟨values, areValues, prepared⟩ := exists_of_bind_eq_ok prepared
  split at prepared
  · cases prepared
  cases prepared
  rw [keys_of_configuredValues areValues]
  exact schema.nodup_visible node.type

theorem keeps_configureNode_tallied (id : NodeId) (content : NodeContent) :
    (configureNode id content).Keeps (OfGraph Tallied) := by
  intro repository tallied
  rw [configureNode]
  refine Change.leads_ask_bind (fun preparation isPrepared => ?_) fun _ _ => tallied
  have distinct := distinct_of_prepare tallied.sound.listed.schema isPrepared
  refine leads_onGraph ?_
  rw [fill]
  refine Change.leads_bind _ (leads_clearNode_tallied tallied id) fun _ cleared blank => ?_
  refine Change.leads_bind (fun _ => Blank id)
    (((Change.keeps_forEach fun name => keeps_giveTag_blank id name) cleared blank).imp
      (fun _ _ kept => kept) fun _ blank => blank.toTallied) fun _ tagged blank => ?_
  refine Change.leads_bind _ (leads_giveValues_tallied blank distinct) fun _ filled tallied => ?_
  refine Change.leads_bind _ (leads_setState_tallied tallied id _) fun _ moved tallied => ?_
  refine Change.leads_modify
    ⟨maintained_sound.described id content.description (Table.sorted_ofList _) moved tallied.sound,
      ?_⟩
  have altered : Altered id (fun carried => carried) moved _ :=
    altered_adjustNode (fun node =>
      { node with description := content.description, services := .ofList content.services })
      moved.stateMembers moved.tagMembers fun _ _ => rfl
  exact tallied.covered.unaltered altered

end Repository

/-! ## Runs -/

namespace Graph

/-- A tag property is given more of a tag than it holds already. -/
def Repeats (graph : Graph) (id : NodeId) (property : PropertyId) (value : Value) : Prop :=
  (graph.property? property).any Property.isTag = true ∧
    ¬ NoMore ((graph.valueAt? id property).getD .null) value

end Graph

namespace Mutation

/-- The flat list of a node may come to lack a tag: one is taken from it on its own, or a
value is given more of one that it holds. -/
def Unlists (graph : Graph) : Mutation → Prop
  | removeTag _ _ => True
  | setProperty id property value => graph.Repeats id property value
  | setPropertyNamed id name value =>
      ∃ node property, graph.node? id = some node ∧
        graph.findProperty? node.type name = some property ∧ graph.Repeats id property.id value
  | _ => False

end Mutation

def Operation.Unlists (repository : Repository) : Operation → Prop
  | mutate mutation => mutation.Unlists repository.graph
  | operation => operation.Redefines repository

namespace Repository

open Graph

variable {repository : Repository}

theorem leads_setPropertyNamed_tallied {graph : Graph} (tallied : graph.Tallied) (id : NodeId)
    (name : String) (value : Value)
    (listing : ¬ (Mutation.setPropertyNamed id name value).Unlists graph) :
    (setPropertyNamed id name value).Leads graph (fun _ => Tallied) Tallied := by
  rw [setPropertyNamed]
  refine leads_nodeOrFault_bind (fun _ => tallied) fun node found => ?_
  refine Change.leads_ask_bind (fun handle isHandle => ?_) fun _ _ => tallied
  cases isProperty : graph.findProperty? node.type name with
  | none => simp [isProperty] at isHandle
  | some property =>
      simp only [isProperty, Except.ok.injEq] at isHandle
      subst isHandle
      refine leads_setProperty_tallied tallied id property.id fun isTag => ?_
      by_contra more
      exact listing ⟨node, property, found, isProperty, isTag, more⟩

theorem leads_mutation_tallied (tallied : OfGraph Tallied repository) (mutation : Mutation)
    (listing : ¬ mutation.Unlists repository.graph) :
    mutation.perform.Leads repository (fun _ => OfGraph Tallied) (OfGraph Tallied) := by
  cases mutation with
  | addNode type name =>
      exact (leads_onGraph (growing_tallied.addNode type name _ tallied)).answerless
  | configureNode id content => exact keeps_configureNode_tallied id content repository tallied
  | setProperty id property value =>
      refine leads_onGraph (leads_setProperty_tallied tallied id property fun isTag => ?_)
      by_contra more
      exact listing ⟨isTag, more⟩
  | setPropertyNamed id name value =>
      exact leads_onGraph (leads_setPropertyNamed_tallied tallied id name value listing)
  | addTag id tag => exact leads_onGraph (leads_addTag_tallied tallied id tag)
  | removeTag id tag => exact absurd trivial listing
  | setState id state => exact leads_onGraph (leads_setState_tallied tallied id state)
  | removeNode id => exact leads_onGraph (leads_removeNode_tallied tallied id)
  | removeTagTree tag => exact (leads_onGraph (leads_removeTagTree_tallied tallied tag)).answerless

/-- Reached without a declared type defined anew, and without a tag that a flat list may come
to lack. -/
def ListingReachable : Repository → Prop :=
  Reached fun repository operation => ¬ operation.Unlists repository

theorem tallied_of_listingReachable (reachable : ListingReachable repository) :
    repository.graph.Tallied := by
  refine Reached.grows growing_tallied keeps_configureNode_tallied ?_ ?_ reachable
  · intro state name declaration steady tallied changed defines
    have new : state.graph.typeId? name = none := by
      simpa [Operation.Unlists, Operation.Redefines, Option.isSome_iff_ne_none] using steady
    exact tallied.reshape defines.1 (defines.2 new)
  · intro state mutation listing tallied
    exact leads_mutation_tallied tallied mutation listing

/-- A tag that a tag property of a node holds is in the flat list of the node, and the node is
listed under the tag; and the graph passes the check of its integrity. -/
theorem held_tags_listed (reachable : ListingReachable repository) :
    (∀ id node property declared value tag, repository.graph.node? id = some node →
      repository.graph.property? property = some declared → declared.isTag = true →
      node.value? property = some value → tag ∈ value.tags →
        tag ∈ node.tags ∧ id ∈ repository.graph.nodesWithTag tag) ∧
    repository.graph.checkIntegrity = .ok () := by
  have tallied := tallied_of_listingReachable reachable
  refine ⟨?_, checkIntegrity_eq_ok tallied (Reached.ordered reachable)⟩
  intro id node property declared value tag found isDeclared isTag isValue member
  have listed := tallied.covered.mem_tags (tallied.sound.referenced.sorted found).1 found
    isDeclared isTag isValue member
  refine ⟨listed, (Table.mem_listed_iff tag id).mpr ?_⟩
  exact (tallied.sound.listed.tagged_iff found tag).mpr listed

/-- A type with a single tag and a list of tags, and a node of it that has one tag for both. -/
def labelledNode : List Operation :=
  [.newTag none "urgent",
    .addNodeType "Task" ⟨none, "", [("label", .text "tag"),
      ("labels", .object [("type", .text "tag"), ("list", .boolean true)])]⟩,
    .mutate (.addNode ⟨0⟩ "a"),
    .mutate (.setProperty ⟨0⟩ ⟨⟨0⟩, 0⟩ (.tag ⟨0⟩)),
    .mutate (.setProperty ⟨0⟩ ⟨⟨0⟩, 1⟩ (.tag ⟨0⟩))]

theorem listingReachable_labelledNode : ListingReachable (Operation.run labelledNode .empty) := by
  refine Reached.empty.run ?_
  simp only [labelledNode, AllAllowed, Operation.Unlists, Mutation.Unlists, Operation.Redefines,
    Graph.Repeats, NoMore, not_false_eq_true, and_true]
  decide

/-- The flat list has the tag of the single property, and the tag lists the node. -/
theorem held_tags_listed_labelledNode :
    ∃ node value, (Operation.run labelledNode .empty).graph.node? ⟨0⟩ = some node ∧
      node.value? ⟨⟨0⟩, 0⟩ = some value ∧ value.tags = [⟨0⟩] ∧ (⟨0⟩ : TagId) ∈ node.tags ∧
      (⟨0⟩ : NodeId) ∈ (Operation.run labelledNode .empty).graph.nodesWithTag ⟨0⟩ ∧
      (Operation.run labelledNode .empty).graph.checkIntegrity = .ok () := by
  have held : ((Operation.run labelledNode .empty).graph.valueAt? ⟨0⟩ ⟨⟨0⟩, 0⟩).map Value.tags =
      some [⟨0⟩] := by
    decide
  have tagged : ((Operation.run labelledNode .empty).graph.property? ⟨⟨0⟩, 0⟩).any
      Property.isTag = true := by
    decide
  obtain ⟨value, held, tags⟩ := Option.map_eq_some_iff.mp held
  obtain ⟨node, found, isValue⟩ := Option.bind_eq_some_iff.mp held
  obtain ⟨declared, isDeclared, isTag⟩ := (Option.any_eq_true _ _).mp tagged
  obtain ⟨listed, intact⟩ := held_tags_listed listingReachable_labelledNode
  have member : (⟨0⟩ : TagId) ∈ value.tags := by
    rw [tags]
    exact List.mem_singleton.mpr rfl
  obtain ⟨inList, listsNode⟩ := listed ⟨0⟩ node _ declared value ⟨0⟩ found isDeclared isTag isValue
    member
  exact ⟨node, value, found, isValue, tags, inList, listsNode, intact⟩

/-- A list that comes to hold its tag twice, and then nothing. -/
def relabelling : List Operation :=
  [.mutate (.setProperty ⟨0⟩ ⟨⟨0⟩, 1⟩ (.list [.tag ⟨0⟩, .tag ⟨0⟩])),
    .mutate (.setProperty ⟨0⟩ ⟨⟨0⟩, 1⟩ .null)]

/-- The further occurrence is not entered, but both are taken out again: the tag of the single
property is lost from the flat list and from the index. -/
theorem labelled_tag_unlisted :
    (((Operation.run (labelledNode ++ relabelling) .empty).graph.valueAt? ⟨0⟩ ⟨⟨0⟩, 0⟩).map
        Value.tags = some [⟨0⟩] ∧
      ((Operation.run (labelledNode ++ relabelling) .empty).graph.property? ⟨⟨0⟩, 0⟩).any
        Property.isTag = true) ∧
    ((Operation.run (labelledNode ++ relabelling) .empty).graph.node? ⟨0⟩).map Node.tags =
      some [] ∧
    (Operation.run (labelledNode ++ relabelling) .empty).graph.nodesWithTag ⟨0⟩ = [] ∧
    (Operation.run (labelledNode ++ relabelling) .empty).graph.checkIntegrity.isOk = false := by
  decide

end Repository

end LifecycleGraph
