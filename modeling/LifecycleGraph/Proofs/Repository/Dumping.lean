import Mathlib.Data.List.Basic
import LifecycleGraph.Proofs.Change
import LifecycleGraph.Repository.Content

/-!
# What is dumped of nodes

A property is dumped if it has a value, under its name and as what is written for the
value.  Of the tags those are dumped that are not accounted for by values.
-/

set_option autoImplicit false

namespace LifecycleGraph

namespace Repository

open Graph

variable {repository : Repository} {id : NodeId} {node : Node}

/-! ## Tags of their own -/

theorem mem_of_mem_ownTags {tags accounted : List TagId} {tag : TagId}
    (member : tag ∈ ownTags tags accounted) : tag ∈ tags := by
  induction tags generalizing accounted with
  | nil => cases member
  | cons first rest inductionHypothesis =>
      rw [ownTags] at member
      split at member
      · exact List.mem_cons_of_mem _ (inductionHypothesis member)
      · rcases List.mem_cons.mp member with rfl | inRest
        · exact List.mem_cons_self ..
        · exact List.mem_cons_of_mem _ (inductionHypothesis inRest)

theorem ownTags_self (tags : List TagId) : ownTags tags tags = [] := by
  induction tags with
  | nil => rfl
  | cons first rest inductionHypothesis => simp [ownTags, inductionHypothesis]

/-- Tags of which none comes with a value stay apart from those that do. -/
theorem ownTags_append_of_disjoint {own accounted : List TagId} (apart : own.Disjoint accounted) :
    ownTags (own ++ accounted) accounted = own := by
  induction own with
  | nil => exact ownTags_self accounted
  | cons first rest inductionHypothesis =>
      obtain ⟨absent, restApart⟩ := List.disjoint_cons_left.mp apart
      rw [List.cons_append, ownTags, if_neg (by simpa using absent), inductionHypothesis restApart]

/-! ## What is dumped -/

section Dump

variable {properties : List Property} {members : Json.Members}

theorem names_of_dumpProperties
    (dumped : repository.dumpProperties node properties = .ok members) :
    ∀ entry ∈ members, ∃ property ∈ properties, property.name = entry.1 := by
  induction properties generalizing members with
  | nil =>
      cases dumped
      exact fun entry member => by cases member
  | cons first rest inductionHypothesis =>
      have later {others : Json.Members}
          (dumped : repository.dumpProperties node rest = .ok others) :
          ∀ entry ∈ others, ∃ property ∈ first :: rest, property.name = entry.1 := by
        intro entry member
        obtain ⟨property, inRest, isName⟩ := inductionHypothesis dumped entry member
        exact ⟨property, List.mem_cons_of_mem _ inRest, isName⟩
      rw [dumpProperties] at dumped
      cases isValue : node.value? first.id with
      | none =>
          rw [isValue] at dumped
          exact later dumped
      | some value =>
          rw [isValue] at dumped
          obtain ⟨data, -, dumped⟩ := exists_of_bind_eq_ok dumped
          obtain ⟨others, areOthers, same⟩ := exists_of_bind_eq_ok dumped
          cases same
          intro entry member
          rcases List.mem_cons.mp member with rfl | inOthers
          · exact ⟨first, List.mem_cons_self .., rfl⟩
          · exact later areOthers entry inOthers

theorem member?_eq_none {name : String} (absent : ∀ entry ∈ members, entry.1 ≠ name) :
    Json.member? name members = none := by
  rw [Json.member?, List.find?_eq_none.mpr, Option.map_none]
  exact fun entry member => by simpa using absent entry member

/-- A property is dumped if it has a value, as what is written for the value. -/
theorem member?_of_dumpProperties (distinct : (properties.map Property.name).Nodup)
    (dumped : repository.dumpProperties node properties = .ok members) {property : Property}
    (member : property ∈ properties) :
    (node.value? property.id = none → Json.member? property.name members = none) ∧
      ∀ value, node.value? property.id = some value →
        ∃ data, repository.encodeValue property value = .ok data ∧
          Json.member? property.name members = some data := by
  induction properties generalizing members with
  | nil => cases member
  | cons first rest inductionHypothesis =>
      obtain ⟨absent, restDistinct⟩ := List.nodup_cons.mp distinct
      -- A property further on has another name than the first one.
      have different {other : Property} (inRest : other ∈ rest) : other.name ≠ first.name :=
        fun same => absent (same ▸ List.mem_map_of_mem inRest)
      rw [dumpProperties] at dumped
      cases isFirst : node.value? first.id with
      | none =>
          rw [isFirst] at dumped
          rcases List.mem_cons.mp member with rfl | inRest
          · refine ⟨fun _ => member?_eq_none fun entry isEntry => ?_, fun value isValue => ?_⟩
            · obtain ⟨other, inRest, isName⟩ := names_of_dumpProperties dumped entry isEntry
              exact isName ▸ different inRest
            · rw [isFirst] at isValue
              cases isValue
          · exact inductionHypothesis restDistinct dumped inRest
      | some held =>
          rw [isFirst] at dumped
          obtain ⟨data, isData, dumped⟩ := exists_of_bind_eq_ok dumped
          obtain ⟨others, areOthers, same⟩ := exists_of_bind_eq_ok dumped
          cases same
          rcases List.mem_cons.mp member with rfl | inRest
          · refine ⟨fun none => ?_, fun value isValue => ?_⟩
            · rw [isFirst] at none
              cases none
            · obtain rfl := Option.some.inj (isFirst.symm.trans isValue)
              exact ⟨data, isData, by simp [Json.member?]⟩
          · have skipped : Json.member? property.name ((first.name, data) :: others) =
                Json.member? property.name others := by
              simp [Json.member?, Ne.symm (different inRest)]
            rw [skipped]
            exact inductionHypothesis restDistinct areOthers inRest

/-- Nodes are dumped alike whose properties have values with the same written forms. -/
theorem dumpProperties_congr {changed : Repository} {now : Node}
    (dumped : repository.dumpProperties node properties = .ok members)
    (same : ∀ property ∈ properties,
      (node.value? property.id = none → now.value? property.id = none) ∧
        ∀ value data, node.value? property.id = some value →
          repository.encodeValue property value = .ok data →
            ∃ other, now.value? property.id = some other ∧
              changed.encodeValue property other = .ok data) :
    changed.dumpProperties now properties = .ok members := by
  induction properties generalizing members with
  | nil => exact dumped
  | cons first rest inductionHypothesis =>
      obtain ⟨without, withValue⟩ := same first (List.mem_cons_self ..)
      have restSame := fun property inRest => same property (List.mem_cons_of_mem _ inRest)
      rw [dumpProperties] at dumped ⊢
      cases isFirst : node.value? first.id with
      | none =>
          rw [isFirst] at dumped
          rw [without isFirst]
          exact inductionHypothesis dumped restSame
      | some value =>
          rw [isFirst] at dumped
          obtain ⟨data, isData, dumped⟩ := exists_of_bind_eq_ok dumped
          obtain ⟨others, areOthers, same⟩ := exists_of_bind_eq_ok dumped
          cases same
          obtain ⟨other, isOther, written⟩ := withValue value data isFirst isData
          rw [isOther]
          simp only [written, inductionHypothesis areOthers restSame]
          rfl

end Dump

/-- The tags of a node that do not come with values of its properties. -/
def tagsApart (repository : Repository) (node : Node) : List TagId :=
  ownTags node.tags (propertyTags node (repository.graph.visibleProperties node.type))

/-- The content of a node with some written values. -/
def contentOf (repository : Repository) (node : Node) (properties : Json.Members) :
    NodeContent where
  description := node.description
  state := node.state.map repository.graph.stateName
  properties := properties
  services := node.services.entries
  tags := (repository.tagsApart node).map repository.graph.tags.absoluteName

theorem dumpNode_of_node? (found : repository.graph.node? id = some node) :
    repository.dumpNode id =
      (repository.dumpProperties node (repository.graph.visibleProperties node.type)).map
        (repository.contentOf node) := by
  rw [dumpNode, nodeOrFault, found]
  change (repository.dumpProperties node (repository.graph.visibleProperties node.type) >>=
    fun members => .ok (repository.contentOf node members)) = _
  cases repository.dumpProperties node (repository.graph.visibleProperties node.type) <;> rfl

end Repository

end LifecycleGraph
