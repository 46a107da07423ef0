import LifecycleGraph.Proofs.Graph.NodeRemoval
import LifecycleGraph.Proofs.Repository.Run

/-!
# References in reachable repositories

As long as no declared type is defined anew, every repository that is reached is
sound.  So a node knows exactly the nodes that refer to it, and what a node
property holds is there and of the right type.
-/

set_option autoImplicit false

namespace LifecycleGraph

namespace Graph

theorem Bare.sound {graph : Graph} (bare : graph.Bare) : graph.Sound where
  listed := bare.listed
  referenced := {
    sorted := fun {id node} found => by simp [bare.node? id] at found
    held := fun {id property value} isValue => by simp [valueAt?, bare.node? id] at isValue
    mirrored := by
      intro target property source
      rw [refersBack, bare.node?, Option.any_none]
      refine iff_of_false Bool.false_ne_true ?_
      intro given
      obtain ⟨_, value, -, -, isValue, -⟩ := given
      rw [valueAt?, bare.node?] at isValue
      cases isValue }

theorem Sound.regrown {graph : Graph} (sound : graph.Sound) {tags : Forest}
    (grown : Forest.LinkedFrom graph.tags tags) (states : Roster State Unit) :
    { graph with tags, states }.Sound :=
  ⟨sound.listed.regrown grown states,
    sound.referenced.move sound.listed (.of_types rfl) (grown.follows sound.listed.linked)
      fun _ => rfl⟩

/-- New types leave nodes and their values as they are. -/
theorem Sound.reshape {old new : Graph} (sound : old.Sound) (reshapes : old.Reshapes new)
    (declares : old.Declares new) : new.Sound where
  listed := sound.listed.reshape reshapes
  referenced := by
    have follows : old.tags.Follows new.tags := by
      rw [reshapes.tags]
      exact Forest.follows_self old.tags
    refine sound.referenced.move sound.listed declares follows fun id => ?_
    rw [node?, node?, reshapes.nodes]

/-- Soundness is kept by every change of nodes, tags and states. -/
theorem maintained_sound : Maintained Sound where
  bare _ bare := bare.sound
  linked _ sound := sound.listed.linked
  grown {graph} _ sound grown := sound.regrown grown graph.states
  revised sound _ := sound.regrown (Forest.linkedFrom_self sound.listed.linked) _
  described id description services _ graph sound :=
    sound.of_alike
      (alike_adjustNode id _ graph.stateMembers graph.tagMembers fun _ => rfl)
      (sound.listed.adjustContent id fun _ => rfl)
  addNode type name graph sound := by
    refine ((keeps_addNode type name graph sound.listed).and (leads_addNode type name graph)).imp
      ?_ ?_
    · intro id changed outcome
      obtain ⟨listed, -, rfl, -⟩ := outcome
      exact sound.enroll listed
    · intro changed outcome
      obtain ⟨-, rfl⟩ := outcome
      exact sound
  addTag id tag graph sound := by
    refine (leads_addTag sound id tag).imp (fun _ _ leads => leads.1) ?_
    intro changed outcome
    obtain ⟨rfl, -⟩ := outcome
    exact sound
  removeTag id tag graph sound := by
    refine (leads_removeTag sound id tag).imp (fun _ _ leads => leads.1) ?_
    intro changed outcome
    obtain ⟨rfl, -⟩ := outcome
    exact sound
  setState id state graph sound := by
    refine (leads_setState sound id state).imp (fun _ _ leads => leads.1) ?_
    intro changed outcome
    obtain ⟨rfl, -⟩ := outcome
    exact sound
  setProperty id property value graph sound := by
    refine (leads_setProperty sound id property value).imp (fun _ _ leads => leads.1) ?_
    intro changed outcome
    obtain ⟨rfl, -⟩ := outcome
    exact sound
  removeNode id graph sound := by
    refine (leads_removeNode sound id).imp (fun _ _ leads => leads) ?_
    intro changed outcome
    obtain ⟨rfl, -⟩ := outcome
    exact sound
  removeTagTree tag graph sound := by
    refine (leads_removeTagTree sound.listed tag).imp ?_ fun _ => False.elim
    intro gone changed outcome
    obtain ⟨-, rfl⟩ := outcome
    exact sound.withoutTree tag

end Graph

namespace Repository

open Graph

variable {repository : Repository}

theorem sound_of_steadilyReachable (reachable : SteadilyReachable repository) :
    repository.graph.Sound := by
  refine Reached.holds maintained_sound ?_ reachable
  intro state name declaration steady sound changed defines
  have new : state.graph.typeId? name = none := by
    simpa [Operation.Redefines, Option.isSome_iff_ne_none] using steady
  exact sound.reshape defines.1 (defines.2 new)

/-- Of two nodes that are there, the second one lists the first one under a node property
exactly if it is among the items of its value; and each item of such a value is a node that
is there, of the type that the property asks for. -/
theorem references_agree (reachable : SteadilyReachable repository) {source target : NodeId}
    {sourceNode targetNode : Node} {property : PropertyId} {declared : Property}
    (isSource : repository.graph.node? source = some sourceNode)
    (isTarget : repository.graph.node? target = some targetNode)
    (isDeclared : repository.graph.property? property = some declared)
    (isNode : declared.isNode = true) :
    (source ∈ targetNode.referrersBy property ↔
      ∃ value, sourceNode.value? property = some value ∧ .node target ∈ value.items) ∧
    ∀ value, sourceNode.value? property = some value → ∀ item ∈ value.items,
      ∃ id node, item = .node id ∧ repository.graph.node? id = some node ∧
        ∀ base, declared.dataType = .node (some base) →
          repository.graph.isSubtype node.type base = true := by
  have sound := sound_of_steadilyReachable reachable
  have mirrored := sound.referenced.mirrored target property source
  constructor
  · rw [Node.referrersBy, Table.mem_listed_iff]
    rw [refersBack, isTarget, Option.any_some] at mirrored
    rw [mirrored]
    constructor
    · intro given
      obtain ⟨_, value, -, -, isValue, member⟩ := given
      rw [valueAt?_of_node? isSource] at isValue
      exact ⟨value, isValue, (value.mem_nodes_iff target).mp member⟩
    · intro given
      obtain ⟨value, isValue, member⟩ := given
      exact ⟨declared, value, isDeclared, isNode, (valueAt?_of_node? isSource property).trans isValue,
        (value.mem_nodes_iff target).mpr member⟩
  · intro value isValue item member
    obtain ⟨again, ⟨isAgain, -⟩, -, fits⟩ := sound.referenced.held
      ((valueAt?_of_node? isSource property).trans isValue)
    rw [isDeclared] at isAgain
    cases isAgain
    obtain ⟨base, isType⟩ := declared.isNode_iff.mp isNode
    obtain ⟨id, isId, own, isOwn, below⟩ := (fits.nodes isNode).admitsNode isType member
    obtain ⟨node, found, rfl⟩ := (typeOf?_eq_some_iff id own).mp isOwn
    refine ⟨id, node, isId, found, fun asked isAsked => below asked ?_⟩
    rw [isType] at isAsked
    exact DataType.node.inj isAsked

/-- A type whose nodes have one next node and a list of parts, with a node that is a part of
itself and of which another one is a part twice.  A third node was removed. -/
def nodesWithParts : Repository :=
  Operation.run
    [.addNodeType "Task" ⟨none, "", [("next", .text "Task"),
        ("parts", .object [("type", .text "Task"), ("list", .boolean true)])]⟩,
      .mutate (.addNode ⟨0⟩ "a"), .mutate (.addNode ⟨0⟩ "b"), .mutate (.addNode ⟨0⟩ "c"),
      .mutate (.setPropertyNamed ⟨0⟩ "parts"
        (.list [.node ⟨1⟩, .node ⟨0⟩, .node ⟨2⟩, .node ⟨1⟩])),
      .mutate (.setPropertyNamed ⟨1⟩ "next" (.node ⟨2⟩)), .mutate (.removeNode ⟨2⟩)]
    .empty

theorem steadilyReachable_nodesWithParts : SteadilyReachable nodesWithParts :=
  Reached.empty.run (by decide)

/-- The first node holds the second one, and the second one lists it. -/
theorem references_agree_nodesWithParts :
    ∃ first second value, nodesWithParts.graph.node? ⟨0⟩ = some first ∧
      nodesWithParts.graph.node? ⟨1⟩ = some second ∧ first.value? ⟨⟨0⟩, 1⟩ = some value ∧
      value.nodes = [⟨1⟩, ⟨0⟩, ⟨1⟩] ∧ (⟨0⟩ : NodeId) ∈ second.referrersBy ⟨⟨0⟩, 1⟩ ∧
      ∀ item ∈ value.items, ∃ id node, item = .node id ∧
        nodesWithParts.graph.node? id = some node := by
  have isSome : (nodesWithParts.graph.node? ⟨0⟩).isSome = true ∧
      (nodesWithParts.graph.node? ⟨1⟩).isSome = true ∧
      ((nodesWithParts.graph.property? ⟨⟨0⟩, 1⟩).any Property.isNode) = true := by
    decide
  have held : ((nodesWithParts.graph.valueAt? ⟨0⟩ ⟨⟨0⟩, 1⟩).map Value.nodes) =
      some [⟨1⟩, ⟨0⟩, ⟨1⟩] := by
    decide
  obtain ⟨first, isFirst⟩ := Option.isSome_iff_exists.mp isSome.1
  obtain ⟨second, isSecond⟩ := Option.isSome_iff_exists.mp isSome.2.1
  obtain ⟨declared, isDeclared, isNode⟩ := (Option.any_eq_true _ _).mp isSome.2.2
  obtain ⟨value, isValue, nodes⟩ := Option.map_eq_some_iff.mp held
  rw [valueAt?_of_node? isFirst] at isValue
  obtain ⟨listed, items⟩ :=
    references_agree steadilyReachable_nodesWithParts isFirst isSecond isDeclared isNode
  refine ⟨first, second, value, isFirst, isSecond, isValue, nodes, listed.mpr ?_, ?_⟩
  · refine ⟨value, isValue, (value.mem_nodes_iff ⟨1⟩).mp ?_⟩
    rw [nodes]
    exact List.mem_cons_self ..
  · intro item member
    obtain ⟨id, node, isItem, found, -⟩ := items value isValue item member
    exact ⟨id, node, isItem, found⟩

end Repository

end LifecycleGraph
