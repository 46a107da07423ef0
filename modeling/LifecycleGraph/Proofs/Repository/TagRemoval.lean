import LifecycleGraph.Proofs.Forest.Walk
import LifecycleGraph.Proofs.Graph.TagRemoval
import LifecycleGraph.Proofs.Repository.Integrity

/-!
# What the removal of a tag leaves

A tag goes with all tags below it.  The index tells which nodes carry one of them, and only
these lose something: the tags that are gone from their flat lists, and from their values.
As long as the tags of a tag property are in the flat list of its node, no such value keeps
a tag that is gone.  Nothing else changes, so what passed the check of integrity passes it
again.
-/

set_option autoImplicit false

namespace LifecycleGraph

namespace Graph

variable {graph : Graph} {gone : List TagId}

/-! ## What is left of values -/

theorem nodes_withoutTags (gone : List TagId) (value : Value) :
    (withoutTags gone value).nodes = value.nodes := by
  cases value with
  | list items =>
      simp only [withoutTags, Value.nodes, Value.items, List.filterMap_filter]
      refine List.filterMap_congr fun item _ => ?_
      cases item <;> simp [Value.tag?, Value.node?]
  | tag held =>
      rw [withoutTags]
      split <;> rfl
  | _ => rfl

/-- A value goes altogether only if it has no nodes. -/
theorem nodes_leftOf (gone : List TagId) (value : Value) :
    ((leftOf gone value).map Value.nodes).getD [] = value.nodes := by
  rw [← nodes_withoutTags gone value, leftOf]
  split
  · rename_i empty
    rw [Value.nodes, List.isEmpty_iff.mp empty]
    rfl
  · rfl

/-! ## A graph without some tags -/

/-- All is as in another graph but for some tags.  These are in no flat list any more, nor in
the values of the nodes that had one of them in their flat list; what is left of the lists and
values is in its order, and has the nodes that it had. -/
structure Stripped (gone : List TagId) (old new : Graph) : Prop where
  types : new.types = old.types
  states : new.states = old.states
  typeMembers : new.typeMembers = old.typeMembers
  stateMembers : new.stateMembers = old.stateMembers
  tagMembers : ∀ tag, new.tagMembers.find? tag =
    if tag ∈ gone then none else old.tagMembers.find? tag
  forest : Forest.Pruned gone old.tags new.tags
  bared : ∀ id, (new.node? id).map Node.bared = (old.node? id).map Node.bared
  referrers : ∀ id, (new.node? id).map Node.referrers = (old.node? id).map Node.referrers
  tags : ∀ id, (new.node? id).map Node.tags =
    (old.node? id).map fun node => node.tags.filter (· ∉ gone)
  values : ∀ id property, new.valueAt? id property =
    if (old.node? id).any fun node => node.tags.any (· ∈ gone) then
      (old.valueAt? id property).bind (leftOf gone)
    else old.valueAt? id property
  spared : ∀ id property value, old.valueAt? id property = some value →
    (∀ tag ∈ value.tags, tag ∉ gone) → new.valueAt? id property = some value
  nodes : ∀ id property, ((new.valueAt? id property).map Value.nodes).getD [] =
    ((old.valueAt? id property).map Value.nodes).getD []

theorem mem_carriers_iff (listed : graph.Listed) (gone : List TagId) (id : NodeId) :
    id ∈ graph.carriers gone ↔
      (graph.node? id).any (fun node => node.tags.any (· ∈ gone)) = true := by
  rw [mem_carriers]
  simp only [listed.tagged, entryOf?, Option.map_eq_some_iff, Option.any_eq_true, List.any_eq_true,
    decide_eq_true_eq]
  constructor
  · rintro ⟨tag, isGone, _, ⟨node, found, rfl⟩, carried⟩
    exact ⟨node, found, tag, carried, isGone⟩
  · rintro ⟨node, found, tag, carried, isGone⟩
    exact ⟨tag, isGone, _, ⟨node, found, rfl⟩, carried⟩

theorem stripped_withoutTree (listed : graph.Listed)
    (kempt : ∀ id node, graph.node? id = some node → node.Kempt) (tag : TagId) :
    Stripped (graph.tags.walk tag) graph (graph.withoutTree tag) := by
  obtain ⟨types, tags, states, typeMembers, stateMembers, tagMembers⟩ :=
    withoutTree_frame graph tag
  have valueAt (id : NodeId) (property : PropertyId) :=
    valueAt?_withoutTree (fun node found => (kempt id node found).properties) tag property
  exact {
    types, states, typeMembers, stateMembers
    tagMembers := fun other => by rw [tagMembers, Table.find?_eraseAll]
    forest := by
      rw [tags]
      exact listed.linked.pruned_remove tag
    bared := fun id => by
      rw [node?_withoutTree]
      split
      · rw [Option.map_map]
        rfl
      · rfl
    referrers := fun id => by
      rw [node?_withoutTree]
      split
      · rw [Option.map_map]
        rfl
      · rfl
    tags := fun id => by
      have entries := congrArg (Option.map Node.Entry.tags) (entryOf?_withoutTree listed tag id)
      rw [entryOf?, entryOf?, Option.map_map, Option.map_map, Option.map_map] at entries
      refine entries.trans (Option.map_congr fun node _ => List.filter_congr fun held _ => ?_)
      simp
    values := fun id property => by
      rw [valueAt]
      exact if_congr (mem_carriers_iff listed _ id) rfl rfl
    spared := fun id property value isValue spared => by
      rw [valueAt, isValue]
      split
      · obtain ⟨node, found, isHeld⟩ := Option.bind_eq_some_iff.mp isValue
        exact leftOf_of_spared ((kempt id node found).filled property value isHeld) spared
      · rfl
    nodes := fun id property => by
      rw [valueAt]
      split
      · cases graph.valueAt? id property with
        | none => rfl
        | some value => exact nodes_leftOf _ value
      · rfl }

/-! ## Integrity without some tags -/

section Stripped

variable {old new : Graph} (stripped : Stripped gone old new)

include stripped

theorem Stripped.refersBack (target : NodeId) (property : PropertyId) (source : NodeId) :
    new.refersBack target property source = old.refersBack target property source := by
  have same := congrArg (Option.any (·.hasMember property source)) (stripped.referrers target)
  rwa [Option.any_map, Option.any_map] at same

/-- A value that is left comes from one with the same nodes, has only tags of that one, and has
none that is gone from the flat list of its node. -/
theorem Stripped.exists_value {id : NodeId} {node : Node} (found : old.node? id = some node)
    {property : PropertyId} {left : Value} (isLeft : new.valueAt? id property = some left) :
    ∃ value, node.value? property = some value ∧ left.nodes = value.nodes ∧
      ∀ tag ∈ left.tags, tag ∈ value.tags ∧ (tag ∈ node.tags → tag ∉ gone) := by
  rw [stripped.values, valueAt?_of_node? found, found, Option.any_some] at isLeft
  split at isLeft
  · obtain ⟨value, isValue, isLeft⟩ := Option.bind_eq_some_iff.mp isLeft
    obtain ⟨rfl, -⟩ := (leftOf_eq_some_iff gone value left).mp isLeft
    refine ⟨value, isValue, nodes_withoutTags gone value, fun tag member => ?_⟩
    rw [tags_withoutTags] at member
    obtain ⟨member, stays⟩ := List.mem_filter.mp member
    exact ⟨member, fun _ => by simpa using stays⟩
  · rename_i untouched
    refine ⟨left, isLeft, rfl, fun tag member => ⟨member, fun listed isGone => untouched ?_⟩⟩
    exact List.any_eq_true.mpr ⟨tag, listed, decide_eq_true isGone⟩

theorem Stripped.intact (intact : old.Intact) : new.Intact where
  held := by
    intro id node property left found isLeft
    obtain ⟨was, isWas, -⟩ := Option.map_eq_some_iff.mp
      ((stripped.bared id).symm.trans (congrArg (Option.map Node.bared) found))
    have isTags := stripped.tags id
    rw [found, isWas, Option.map_some, Option.map_some, Option.some.injEq] at isTags
    obtain ⟨value, isValue, nodes, tags⟩ :=
      stripped.exists_value isWas ((valueAt?_of_node? found property).trans isLeft)
    obtain ⟨declared, isDeclared, backed⟩ := intact.held isWas isValue
    rw [property?_of_types stripped.types]
    refine ⟨declared, isDeclared, ?_, ?_⟩
    · intro isNode target member
      rw [nodes] at member
      exact (stripped.refersBack _ _ _).trans (backed.nodes isNode target member)
    · intro isTag tag member
      obtain ⟨was, stays⟩ := tags tag member
      have listed := backed.tags isTag tag was
      rw [isTags]
      exact List.mem_filter.mpr ⟨listed, decide_eq_true (stays listed)⟩
  referred := by
    intro target property source refers
    rw [stripped.refersBack] at refers
    obtain ⟨value, isValue, member⟩ := intact.referred refers
    have nodes := stripped.nodes source property
    rw [isValue, Option.map_some, Option.getD_some] at nodes
    rw [← nodes] at member
    cases isLeft : new.valueAt? source property with
    | none =>
        rw [isLeft] at member
        cases member
    | some left =>
        rw [isLeft] at member
        exact ⟨left, rfl, member⟩

end Stripped

/-! ## A tag that is nowhere -/

/-- A tag is in no list of tags, in no index, in no flat list and in no value of a tag
property. -/
structure Forgotten (graph : Graph) (tag : TagId) : Prop where
  forest : graph.tags.Absent tag
  unindexed : graph.nodesWithTag tag = []
  unlisted : ∀ id node, graph.node? id = some node → tag ∉ node.tags
  unheld : ∀ id node property declared value, graph.node? id = some node →
    graph.property? property = some declared → declared.isTag = true →
    node.value? property = some value → tag ∉ value.tags

/-- In an intact graph a tag that is not there is nowhere. -/
theorem Intact.forgotten (intact : graph.Intact) (listed : graph.Listed) {tag : TagId}
    (gone : graph.tags.contains tag = false) : graph.Forgotten tag := by
  have unlisted (id : NodeId) (node : Node) (found : graph.node? id = some node) :
      tag ∉ node.tags := by
    intro member
    have present := listed.carried (entryOf?_of_node? found) member
    rw [gone] at present
    cases present
  refine ⟨listed.linked.absent gone, ?_, unlisted, ?_⟩
  · refine List.eq_nil_iff_forall_not_mem.mpr fun id member => ?_
    obtain ⟨node, found, carried⟩ := (listed.mem_nodesWithTag tag id).mp member
    exact unlisted id node found carried
  · intro id node property declared value found isDeclared isTag isValue member
    exact unlisted id node found
      (intact.mem_tags found ⟨property, declared, value, isDeclared, isTag, isValue, member⟩)

end Graph

namespace Repository

open Graph

variable {repository : Repository}

/-- Where the check of integrity finds nothing, a tag that is there can be removed.  Then the
tags below it and the tag itself are nowhere, nothing else is gone, and the check finds nothing
again. -/
theorem removeTagTree_forgets (reachable : Reachable repository)
    (passes : repository.graph.checkIntegrity = .ok ()) {tag : TagId}
    (present : repository.graph.tags.contains tag = true) :
    ∃ gone changed, (onGraph (Graph.removeTagTree tag)).apply repository =
        (.ok gone, { repository with graph := changed }) ∧
      gone.Nodup ∧ (∀ other, other ∈ gone ↔ repository.graph.tags.isa other tag = true) ∧
      (∀ other ∈ gone, changed.Forgotten other) ∧ Stripped gone repository.graph changed ∧
      changed.checkIntegrity = .ok () := by
  have listed := Reached.listed reachable
  have rooted := listed.linked.rooted
  obtain ⟨_, _, applied, rfl, rfl⟩ := (leads_removeTagTree listed tag).exists_answer
  have performed : (onGraph (Graph.removeTagTree tag)).apply repository =
      (.ok (repository.graph.tags.walk tag),
        { repository with graph := repository.graph.withoutTree tag }) := by
    rw [onGraph, Change.apply_within, applied]
  have further : Reachable { repository with graph := repository.graph.withoutTree tag } := by
    have step : Reachable ((Operation.mutate (.removeTagTree tag)).perform.apply repository).2 :=
      reachable.step trivial
    rwa [Operation.perform, Mutation.perform, Change.apply_bind_pure, performed] at step
  have stripped := stripped_withoutTree listed (Reached.kempt reachable) tag
  have intact := stripped.intact ((Reached.checkIntegrity_eq_ok_iff reachable).mp passes)
  refine ⟨_, _, performed, rooted.nodup_walk tag, rooted.mem_walk_iff_isa present,
    fun other isGone => ?_, stripped, (Reached.checkIntegrity_eq_ok_iff further).mpr intact⟩
  refine intact.forgotten (Reached.listed further) ?_
  rw [Forest.contains, stripped.forest.tags, if_pos isGone]
  rfl

/-- Two sites, whose places are tags below the first tag and whose labels are any tags.  The
first site has a place two levels below that tag, and labels of which two are below it. -/
def placedSites : Repository :=
  Operation.run
    [.newTag none "area", .newTag (some ⟨0⟩) "north", .newTag none "open",
      .newTag (some ⟨1⟩) "coast",
      .addNodeType "Site" ⟨none, "", [("place", .text "area"),
        ("labels", .object [("type", .text "tag"), ("list", .boolean true)]),
        ("next", .text "Site")]⟩,
      .mutate (.addNode ⟨0⟩ "a"), .mutate (.addNode ⟨0⟩ "b"),
      .mutate (.setPropertyNamed ⟨0⟩ "place" (.tag ⟨3⟩)),
      .mutate (.setPropertyNamed ⟨0⟩ "labels" (.list [.tag ⟨2⟩, .tag ⟨1⟩, .tag ⟨2⟩, .tag ⟨1⟩])),
      .mutate (.setPropertyNamed ⟨0⟩ "next" (.node ⟨1⟩)), .mutate (.addTag ⟨1⟩ ⟨2⟩)]
    .empty

theorem reachable_placedSites : Reachable placedSites :=
  reachable_run _

/-- Without the first tag the first site has its other label as often as before, and no
place. -/
theorem removeTagTree_forgets_placedSites :
    placedSites.graph.checkIntegrity = .ok () ∧
    placedSites.graph.tags.contains ⟨0⟩ = true ∧
    ∃ changed, (onGraph (Graph.removeTagTree ⟨0⟩)).apply placedSites =
        (.ok [⟨0⟩, ⟨1⟩, ⟨3⟩], { placedSites with graph := changed }) ∧
      changed.Forgotten ⟨3⟩ ∧
      (changed.valueAt? ⟨0⟩ ⟨⟨0⟩, 0⟩).isNone = true ∧
      (changed.valueAt? ⟨0⟩ ⟨⟨0⟩, 1⟩).map Value.tags = some [⟨2⟩, ⟨2⟩] ∧
      (changed.node? ⟨0⟩).map Node.tags = some [⟨2⟩, ⟨2⟩] ∧
      changed.checkIntegrity = .ok () := by
  have passes : placedSites.graph.checkIntegrity = .ok () :=
    eq_ok_of_toOption (by decide +kernel)
  have present : placedSites.graph.tags.contains ⟨0⟩ = true := by decide +kernel
  obtain ⟨gone, changed, performed, -, -, forgotten, stripped, still⟩ :=
    removeTagTree_forgets reachable_placedSites passes present
  have answered : ((onGraph (Graph.removeTagTree ⟨0⟩)).apply placedSites).1 =
      .ok [⟨0⟩, ⟨1⟩, ⟨3⟩] := eq_ok_of_toOption (by decide +kernel)
  obtain rfl : gone = [⟨0⟩, ⟨1⟩, ⟨3⟩] := by
    rw [performed] at answered
    exact Except.ok.inj answered
  refine ⟨passes, present, changed, performed, forgotten _ (by decide), ?_, ?_, ?_, still⟩
  · rw [stripped.values]
    decide +kernel
  · rw [stripped.values]
    decide +kernel
  · rw [stripped.tags]
    decide +kernel

end Repository

end LifecycleGraph
