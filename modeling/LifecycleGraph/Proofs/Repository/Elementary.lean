import LifecycleGraph.Proofs.Graph.Assignment
import LifecycleGraph.Proofs.Repository.Content

/-!
# Elementary steps

Every change of a graph is made of a few steps: a node is touched, moved, described,
added or taken away, an index is brought in line, or the forest of tags grows or loses a
tree.  What each of these steps keeps by itself is kept by every change of nodes and tags.
Values and tags of nodes are set and taken away by the first of them alone.
-/

set_option autoImplicit false

namespace LifecycleGraph

/-- What a node is, without what it carries and who refers to it. -/
def Node.bared (node : Node) : Node :=
  { node with properties := .empty, referrers := .empty, tags := [] }

/-- The tables of a node are in the order of their keys, and no value of it holds nothing. -/
structure Node.Kempt (node : Node) : Prop where
  properties : node.properties.Sorted
  referrers : node.referrers.Sorted
  filled : ∀ property value, node.value? property = some value → value.items ≠ []

namespace Graph

variable {graph : Graph} {kept : Graph → Prop} {id : NodeId} {property : PropertyId}

/-! ## Touching a node -/

/-- A change of what a node carries and of who refers to it, which leaves its tables kempt. -/
structure Touches (change : Node → Node) : Prop where
  bared : ∀ node, (change node).bared = node.bared
  kempt : ∀ node, node.Kempt → (change node).Kempt

/-- A change of the flat list of a node. -/
theorem touches_tags (tags : Node → List TagId) :
    Touches fun node => { node with tags := tags node } :=
  ⟨fun _ => rfl, fun _ kempt => ⟨kempt.properties, kempt.referrers, kempt.filled⟩⟩

theorem touches_withoutReferrer : Touches (withoutReferrer id property) :=
  ⟨fun _ => rfl, fun _ kempt =>
    ⟨kempt.properties, kempt.referrers.dropMember property id, kempt.filled⟩⟩

theorem touches_withReferrer : Touches (withReferrer id property) :=
  ⟨fun _ => rfl, fun _ kempt =>
    ⟨kempt.properties, kempt.referrers.addMember property id, kempt.filled⟩⟩

theorem touches_hold (value : Value) : Touches (hold property value) where
  bared _ := rfl
  kempt node kempt := by
    refine ⟨sorted_hold value kempt.properties, kempt.referrers, fun other held isHeld => ?_⟩
    rw [Node.value?, find?_hold] at isHeld
    split at isHeld
    · split at isHeld
      · cases isHeld
      · rename_i notEmpty
        cases isHeld
        simpa using notEmpty
    · exact kempt.filled other held isHeld

theorem touches_stripTags (gone : List TagId) : Touches (stripTags gone) where
  bared _ := rfl
  kempt node kempt := by
    refine ⟨kempt.properties.filterMapValues _, kempt.referrers, fun property left isLeft => ?_⟩
    rw [Node.value?, stripTags, kempt.properties.find?_filterMapValues] at isLeft
    obtain ⟨value, -, isStripped⟩ := Option.bind_eq_some_iff.mp isLeft
    simp only at isStripped
    split at isStripped
    · cases isStripped
    · rename_i notEmpty
      cases isStripped
      simpa using notEmpty

/-! ## Kinds of graphs -/

theorem sorted_moveMember {members : Table StateId (Ascending NodeId)} (sorted : members.Sorted)
    (id : NodeId) (source target : Option StateId) :
    (moveMember members id source target).Sorted := by
  cases source with
  | none =>
      cases target with
      | none => exact sorted
      | some target => exact sorted.addMember target id
  | some source =>
      cases target with
      | none => exact sorted.dropMember source id
      | some target => exact (sorted.dropMember source id).addMember target id

/-- A kind of graphs for which it does not matter what nodes carry. -/
structure Indifferent (kept : Graph → Prop) : Prop where
  touch : ∀ {graph} (id : NodeId) {change : Node → Node}, Touches change → kept graph →
    kept (graph.adjustNode id change)
  list : ∀ {graph : Graph} {members : Table TagId (Ascending NodeId)},
    (graph.tagMembers.Sorted → members.Sorted) → kept graph →
      kept { graph with tagMembers := members }

/-- A kind of graphs that every step keeps, whatever the other parts of a change are. -/
structure Elementary (kept : Graph → Prop) : Prop extends Indifferent kept where
  move : ∀ {graph : Graph} (id : NodeId) {state : Option StateId}
    {members : Table StateId (Ascending NodeId)},
    (∀ target, state = some target → (graph.state? target).isSome = true) →
    (graph.stateMembers.Sorted → members.Sorted) → kept graph →
      kept { graph.adjustNode id fun node => { node with state } with stateMembers := members }
  describe : ∀ {graph} (id : NodeId) (description : String) {services : Table String Json},
    services.Sorted → kept graph → kept (describeNode id description services graph)
  enroll : ∀ {graph : Graph} (type : TypeId) {name : String}, validNodeName name = true →
    kept graph → kept (graph.enroll type name)
  discard : ∀ {graph : Graph} (node : Node), kept graph → kept (graph.discard node)
  prune : ∀ {graph : Graph} (tag : TagId), graph.tags.Linked → kept graph →
    kept { graph with tags := (graph.tags.remove tag).2 }
  grown : ∀ {graph : Graph} {tags : Forest}, Forest.LinkedFrom graph.tags tags → kept graph →
    kept { graph with tags }

/-- What moves of nodes between states keep is kept where a state is set. -/
theorem keeps_setState_of_moves (moves : ∀ {graph : Graph} (id : NodeId) {state : Option StateId}
      {members : Table StateId (Ascending NodeId)},
      (∀ target, state = some target → (graph.state? target).isSome = true) →
      (graph.stateMembers.Sorted → members.Sorted) → kept graph →
        kept { graph.adjustNode id fun node => { node with state } with stateMembers := members })
    (id : NodeId) (state : Option StateId) : (setState id state).Keeps kept := by
  intro graph isKept
  rw [setState, Change.leads_ofFunction]
  cases missing : state.filter fun target => (graph.state? target).isNone with
  | some target => exact isKept
  | none =>
      simp only
      cases graph.node? id with
      | none => exact isKept
      | some node =>
          simp only
          by_cases already : node.state = state
          · simp only [already, if_true]
            exact isKept
          · simp only [already, if_false]
            refine moves id (fun target isTarget => ?_)
              (fun sorted => sorted_moveMember sorted id node.state state) isKept
            simpa [isTarget, Option.isSome_iff_ne_none] using missing

namespace Indifferent

variable (indifferent : Indifferent kept)

include indifferent

theorem touchAll {change : Node → Node} (touches : Touches change) (ids : List NodeId)
    (isKept : kept graph) : kept (adjustAll change ids graph) := by
  rw [adjustAll]
  induction ids generalizing graph with
  | nil => exact isKept
  | cons id rest inductionHypothesis =>
      exact inductionHypothesis (indifferent.touch id touches isKept)

theorem keeps_pushTag (id : NodeId) (tag : TagId) : (pushTag id tag).Keeps kept := by
  intro graph isKept
  rw [pushTag, Change.leads_ofFunction]
  by_cases present : graph.tags.contains tag = true
  · simp only [present, Bool.not_true, Bool.false_eq_true, if_false]
    cases graph.node? id with
    | none => exact isKept
    | some node =>
        exact indifferent.list (·.addMember tag id)
          (indifferent.touch id (touches_tags (·.tags ++ [tag])) isKept)
  · have gone : graph.tags.contains tag = false := by simpa using present
    simp only [gone, Bool.not_false, if_true]
    exact isKept

theorem keeps_addTag (id : NodeId) (tag : TagId) : (addTag id tag).Keeps kept := by
  rw [addTag]
  refine (Change.keeps_ask _).bind fun node => ?_
  split
  · exact Change.keeps_pure _
  · exact indifferent.keeps_pushTag id tag

theorem keeps_removeTag (id : NodeId) (tag : TagId) : (removeTag id tag).Keeps kept := by
  intro graph isKept
  rw [removeTag, Change.leads_ofFunction]
  cases graph.node? id with
  | none => exact isKept
  | some node =>
      simp only
      by_cases held : node.tags.contains tag = true
      · simp only [held, if_true]
        refine indifferent.list (fun sorted => ?_)
          (indifferent.touch node.id (touches_tags fun _ => node.tags.erase tag) isKept)
        split
        · exact sorted
        · exact sorted.dropMember tag node.id
      · simp only [held, Bool.false_eq_true, if_false]
        exact isKept

theorem keeps_setProperty (id : NodeId) (property : PropertyId) (value : Value) :
    (setProperty id property value).Keeps kept := by
  rw [setProperty_eq]
  refine (Change.keeps_ask _).bind fun (declared, node) => (Change.keeps_ask _).bind fun value => ?_
  refine Change.Keeps.bind ?_ fun _ =>
    Change.keeps_modify fun graph => indifferent.touch id (touches_hold _)
  rw [follow]
  split
  · refine Change.keeps_modify fun graph isKept => ?_
    rw [relink_eq]
    exact indifferent.touchAll touches_withReferrer _
      (indifferent.touchAll touches_withoutReferrer _ isKept)
  · split
    · rw [retag]
      refine Change.Keeps.bind (Change.keeps_forEach fun tag => ?_) fun _ =>
        Change.keeps_forEach fun tag => indifferent.keeps_pushTag id tag
      exact (indifferent.keeps_removeTag id tag).answerless
    · exact Change.keeps_pure _

/-- What is kept where a node leaves the indices is kept where it is removed. -/
theorem keeps_removeNode
    (discards : ∀ {graph : Graph} (node : Node), kept graph → kept (graph.discard node))
    (id : NodeId) : (removeNode id).Keeps kept := by
  rw [removeNode]
  refine (Change.keeps_ask _).bind fun node => ?_
  refine Change.Keeps.bind (Change.keeps_forEach fun property =>
    indifferent.keeps_setProperty id property .null) fun _ => ?_
  refine (Change.keeps_ask _).bind fun node => Change.Keeps.bind ?_ fun _ => ?_
  · refine Change.keeps_forEach fun reference => Change.keeps_forEach fun referrer => ?_
    exact (Change.keeps_ask _).bind fun _ => indifferent.keeps_setProperty referrer reference.1 _
  · exact (Change.keeps_ask _).bind fun node =>
      Change.keeps_modify fun graph => discards node

end Indifferent

/-- What nodes carry apart, and who refers to them, two graphs are the same. -/
structure SameBared (old new : Graph) : Prop where
  types : new.types = old.types
  tags : new.tags = old.tags
  states : new.states = old.states
  bared : ∀ id, (new.node? id).map Node.bared = (old.node? id).map Node.bared

namespace SameBared

variable {old new : Graph} {id : NodeId}

theorem refl (graph : Graph) : graph.SameBared graph := ⟨rfl, rfl, rfl, fun _ => rfl⟩

theorem node? (same : old.SameBared new) {node : Node} (found : old.node? id = some node) :
    ∃ now, new.node? id = some now ∧ now.bared = node.bared := by
  have known := same.bared id
  rw [found, Option.map_some] at known
  exact Option.map_eq_some_iff.mp known

end SameBared

theorem indifferent_sameBared (start : Graph) : Indifferent start.SameBared where
  touch {graph} id change touches same := by
    refine ⟨same.types, same.tags, same.states, fun other => ?_⟩
    rw [← same.bared, node?_adjustNode]
    split
    · rw [Option.map_map]
      exact congrArg (Option.map · _) (funext touches.bared)
    · rfl
  list _ same := ⟨same.types, same.tags, same.states, same.bared⟩

namespace Elementary

variable (elementary : Elementary kept)

include elementary

theorem keeps_setState (id : NodeId) (state : Option StateId) : (setState id state).Keeps kept :=
  keeps_setState_of_moves elementary.move id state

theorem keeps_removeNode (id : NodeId) : (removeNode id).Keeps kept :=
  elementary.toIndifferent.keeps_removeNode elementary.discard id

theorem leads_removeTagTree (listed : graph.Listed) (isKept : kept graph) (tag : TagId) :
    (removeTagTree tag).Leads graph (fun _ => kept) (fun _ => False) := by
  refine (Graph.leads_removeTagTree listed tag).imp ?_ fun _ never => never
  intro _ changed outcome
  obtain ⟨-, rfl⟩ := outcome
  let gone := graph.tags.walk tag
  let unlisted : Graph := { graph with tagMembers := gone.foldl Table.erase graph.tagMembers }
  let stripped := adjustAll (stripTags gone) (graph.carriers gone) unlisted
  have frame := adjustAll_frame (stripTags gone) (graph.carriers gone) unlisted
  have tags : stripped.tags = graph.tags := (congrArg Graph.tags frame :)
  have isStripped : kept stripped := elementary.toIndifferent.touchAll (touches_stripTags gone) _
    (elementary.list (·.eraseAll gone) isKept)
  have pruned : kept { stripped with tags := (stripped.tags.remove tag).2 } :=
    elementary.prune tag (by rw [tags]; exact listed.linked) isStripped
  rw [tags] at pruned
  exact pruned

/-- Beside the exactness of the indices, what each step keeps is kept by every change of nodes
and tags. -/
theorem tended : Tended fun graph => graph.Listed ∧ kept graph where
  linked _ both := both.1.linked
  grown {graph} _ both grown := ⟨both.1.regrown grown graph.states, elementary.grown grown both.2⟩
  described id description _ sorted _ both :=
    ⟨both.1.adjustContent id fun _ => rfl, elementary.describe id description sorted both.2⟩
  addNode type name := by
    refine (keeps_addNode type name).and fun graph isKept => ?_
    refine (leads_addNode type name graph).imp ?_ ?_
    · intro id changed outcome
      obtain ⟨-, rfl, valid, -⟩ := outcome
      exact elementary.enroll type valid isKept
    · intro changed same
      rw [same]
      exact isKept
  addTag id tag := (Graph.keeps_addTag id tag).and (elementary.toIndifferent.keeps_addTag id tag)
  removeTag id tag :=
    (Graph.keeps_removeTag id tag).and (elementary.toIndifferent.keeps_removeTag id tag)
  setState id state := (Graph.keeps_setState id state).and (elementary.keeps_setState id state)
  setProperty id property value :=
    (Graph.keeps_setProperty id property value).and
      (elementary.toIndifferent.keeps_setProperty id property value)
  removeNode id := (Graph.keeps_removeNode id).and (elementary.keeps_removeNode id)
  removeTagTree tag graph both :=
    ((Graph.keeps_removeTagTree tag graph both.1).and
      (elementary.leads_removeTagTree both.1 both.2 tag)).imp (fun _ _ both => both)
        fun _ both => both.2.elim

/-- If revised states do not matter either, it is kept by every change. -/
theorem sustained (revised : ∀ {graph : Graph} {states : Roster State Unit},
    Revises graph.states states → kept graph → kept { graph with states }) :
    Sustained fun graph => graph.Listed ∧ kept graph :=
  { elementary.tended with
    revised := fun both revises =>
      ⟨both.1.regrown (Forest.linkedFrom_self both.1.linked) _, revised revises both.2⟩ }

end Elementary

end Graph

end LifecycleGraph
