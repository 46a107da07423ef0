import Mathlib.Data.List.Forall2
import LifecycleGraph.Proofs.Graph.Membership

/-!
# Values that properties accept

When a value is given to a property, the property holds it item by item.  What
a property holds it would accept again as it is.  Whether an item is accepted
depends on the graph only for nodes and tags.
-/

set_option autoImplicit false

namespace LifecycleGraph

theorem Value.mem_nodes_iff (value : Value) (id : NodeId) :
    id ∈ value.nodes ↔ .node id ∈ value.items := by
  rw [nodes, List.mem_filterMap]
  constructor
  · intro given
    obtain ⟨item, member, isNode⟩ := given
    cases item <;> simp_all [node?]
  · intro member
    exact ⟨_, member, rfl⟩

theorem Value.mem_tags_iff (value : Value) (tag : TagId) :
    tag ∈ value.tags ↔ .tag tag ∈ value.items := by
  rw [tags, List.mem_filterMap]
  constructor
  · intro given
    obtain ⟨item, member, isTag⟩ := given
    cases item <;> simp_all [tag?]
  · intro member
    exact ⟨_, member, rfl⟩

theorem Property.isNode_iff (declared : Property) :
    declared.isNode = true ↔ ∃ base, declared.dataType = .node base := by
  rw [isNode]
  cases declared.dataType <;> simp [DataType.isNode]

theorem Property.isTag_iff (declared : Property) :
    declared.isTag = true ↔ ∃ ns, declared.dataType = .tag ns := by
  rw [isTag]
  cases declared.dataType <;> simp [DataType.isTag]

namespace Graph

variable {graph : Graph}

def typeOf? (graph : Graph) (id : NodeId) : Option TypeId := (graph.node? id).map Node.type

/-- The node is there and of a type, if one is asked for. -/
def AdmitsNode (graph : Graph) (type : Option TypeId) (id : NodeId) : Prop :=
  ∃ own, graph.typeOf? id = some own ∧ ∀ base, type = some base → graph.isSubtype own base = true

/-- The tag is there or, where a namespace is asked for, below it. -/
def AdmitsTag (graph : Graph) (ns : Option TagId) (tag : TagId) : Prop :=
  match ns with
  | none => graph.tags.contains tag = true
  | some ns => graph.tags.isa tag ns = true

/-! ## Single items -/

theorem fit?_node_eq_some_iff (type : Option TypeId) (item held : Value) :
    graph.fit? (.node type) item = some held ↔
      ∃ id, item = .node id ∧ held = .node id ∧ graph.AdmitsNode type id := by
  cases item with
  | node id =>
      cases type with
      | none =>
          cases found : graph.node? id <;>
            simp [fit?, AdmitsNode, typeOf?, found, eq_comm (a := held)]
      | some base =>
          cases found : graph.node? id with
          | none => simp [fit?, AdmitsNode, typeOf?, found]
          | some node =>
              by_cases below : graph.isSubtype node.type base = true <;>
                simp [fit?, AdmitsNode, typeOf?, found, below, eq_comm (a := held)]
  | _ => cases type <;> simp [fit?]

theorem fit?_tag_eq_some_iff (ns : Option TagId) (item held : Value) :
    graph.fit? (.tag ns) item = some held ↔
      ∃ tag, item = .tag tag ∧ held = .tag tag ∧ graph.AdmitsTag ns tag := by
  cases item with
  | tag tag =>
      cases ns with
      | none =>
          by_cases present : graph.tags.contains tag = true <;>
            simp [fit?, AdmitsTag, present, eq_comm (a := held)]
      | some base =>
          by_cases below : graph.tags.isa tag base = true <;>
            simp [fit?, AdmitsTag, below, eq_comm (a := held)]
  | _ => cases ns <;> simp [fit?]

/-- An item is held as it is, or as a number where it is an integer. -/
theorem eq_of_fit? {type : DataType} {item held : Value} (fits : graph.fit? type item = some held) :
    held = item ∨
      ∃ integer, type = .primitive .number ∧ item = .integer integer ∧
        held = .number (Float.ofInt integer.toInt) := by
  cases type with
  | primitive kind => cases kind <;> cases item <;> simp_all [fit?]
  | tag ns =>
      obtain ⟨tag, rfl, rfl, -⟩ := (fit?_tag_eq_some_iff ns item held).mp fits
      exact .inl rfl
  | node type =>
      obtain ⟨id, rfl, rfl, -⟩ := (fit?_node_eq_some_iff type item held).mp fits
      exact .inl rfl
  | custom name => simp_all [fit?]
  | any => simp_all [fit?]

theorem fit?_held {type : DataType} {item held : Value} (fits : graph.fit? type item = some held) :
    graph.fit? type held = some held := by
  rcases eq_of_fit? fits with rfl | ⟨integer, rfl, -, rfl⟩
  · exact fits
  · rfl

/-- An item that is held is held as it is again, if it is accepted again. -/
theorem eq_of_fit?_again {old new : Graph} {type : DataType} {item held again : Value}
    (fits : old.fit? type item = some held) (refits : new.fit? type held = some again) :
    again = held := by
  rcases eq_of_fit? refits with same | ⟨integer, rfl, rfl, rfl⟩
  · exact same
  · -- No number property holds an integer.
    rcases eq_of_fit? fits with rfl | ⟨_, -, -, same⟩
    · cases fits
    · cases same

theorem eq_of_fits_again {old new : Graph} {type : DataType} {items held again : List Value}
    (fits : List.Forall₂ (fun item held => old.fit? type item = some held) items held)
    (refits : List.Forall₂ (fun item held => new.fit? type item = some held) held again) :
    again = held := by
  induction fits generalizing again with
  | nil =>
      cases refits
      rfl
  | cons fit _ inductionHypothesis =>
      cases refits with
      | cons refit refits => rw [eq_of_fit?_again fit refit, inductionHypothesis refits]

theorem node?_of_fit? {type : DataType} {item held : Value}
    (fits : graph.fit? type item = some held) : held.node? = item.node? := by
  rcases eq_of_fit? fits with rfl | ⟨integer, -, rfl, rfl⟩ <;> rfl

theorem tag?_of_fit? {type : DataType} {item held : Value}
    (fits : graph.fit? type item = some held) : held.tag? = item.tag? := by
  rcases eq_of_fit? fits with rfl | ⟨integer, -, rfl, rfl⟩ <;> rfl

/-- An item that one graph accepts another one accepts if it admits the node or the tag. -/
theorem fit?_of_fit? {old new : Graph} {type : DataType} {item held : Value}
    (nodes : ∀ base id, type = .node base → item = .node id → old.AdmitsNode base id →
      new.AdmitsNode base id)
    (tags : ∀ ns tag, type = .tag ns → item = .tag tag → old.AdmitsTag ns tag →
      new.AdmitsTag ns tag)
    (fits : old.fit? type item = some held) : new.fit? type item = some held := by
  cases type with
  | primitive kind => cases kind <;> cases item <;> simp_all [fit?]
  | tag ns =>
      obtain ⟨tag, rfl, rfl, admits⟩ := (fit?_tag_eq_some_iff ns item held).mp fits
      exact (fit?_tag_eq_some_iff ns _ _).mpr ⟨tag, rfl, rfl, tags ns tag rfl rfl admits⟩
  | node base =>
      obtain ⟨id, rfl, rfl, admits⟩ := (fit?_node_eq_some_iff base item held).mp fits
      exact (fit?_node_eq_some_iff base _ _).mpr ⟨id, rfl, rfl, nodes base id rfl rfl admits⟩
  | custom name => exact fits
  | any => exact fits

/-! ## Values -/

/-- The second value is what a property holds that is given the first one. -/
inductive Validated (graph : Graph) (declared : Property) : Value → Value → Prop where
  | null : Validated graph declared .null .null
  | list {items held : List Value} : declared.list = true →
      List.Forall₂ (fun item held => graph.fit? declared.dataType item = some held) items held →
      Validated graph declared (.list items) (.list held)
  | wrapped {item held : Value} : declared.list = true → item ≠ .null →
      (∀ items, item ≠ .list items) → graph.fit? declared.dataType item = some held →
      Validated graph declared item (.list [held])
  | single {value held : Value} : declared.list = false → value ≠ .null →
      (∀ items, value = .list items → declared.dataType = .any) →
      graph.fit? declared.dataType value = some held → Validated graph declared value held

theorem checkItem_eq_ok_iff (declared : Property) (item held : Value) :
    graph.checkItem declared item = .ok held ↔ graph.fit? declared.dataType item = some held := by
  rw [checkItem]
  cases graph.fit? declared.dataType item <;> simp

theorem checkItems_eq_ok_iff (declared : Property) (items held : List Value) :
    graph.checkItems declared items = .ok held ↔
      List.Forall₂ (fun item held => graph.fit? declared.dataType item = some held) items held := by
  induction items generalizing held with
  | nil =>
      simp only [checkItems, Except.ok.injEq, List.forall₂_nil_left_iff]
      exact eq_comm
  | cons item rest inductionHypothesis =>
      rw [checkItems, List.forall₂_cons_left_iff]
      constructor
      · intro checked
        obtain ⟨first, isFirst, checked⟩ := exists_of_bind_eq_ok checked
        obtain ⟨others, areOthers, same⟩ := exists_of_bind_eq_ok checked
        cases same
        exact ⟨first, others, (checkItem_eq_ok_iff declared item first).mp isFirst,
          (inductionHypothesis others).mp areOthers, rfl⟩
      · intro given
        obtain ⟨first, others, isFirst, areOthers, rfl⟩ := given
        rw [(checkItem_eq_ok_iff declared item first).mpr isFirst,
          (inductionHypothesis others).mpr areOthers]
        rfl

theorem validate_of_single (declared : Property) {value : Value} (notNull : value ≠ .null)
    (notList : ∀ items, value ≠ .list items) :
    graph.validate declared value =
      if declared.list then (graph.checkItem declared value).map fun item => .list [item]
      else graph.checkItem declared value := by
  cases value with
  | null => exact absurd rfl notNull
  | list items => exact absurd rfl (notList items)
  | _ => rfl

theorem map_eq_ok_iff {α β : Type} (answer : Except Fault α) (change : α → β) (result : β) :
    answer.map change = .ok result ↔ ∃ held, answer = .ok held ∧ change held = result := by
  cases answer <;> simp [Except.map]

theorem validate_eq_ok_iff (declared : Property) (value held : Value) :
    graph.validate declared value = .ok held ↔ graph.Validated declared value held := by
  constructor
  · intro validated
    by_cases notNull : value = .null
    · subst notNull
      cases validated
      exact .null
    · by_cases isList : ∃ items, value = .list items
      · obtain ⟨items, rfl⟩ := isList
        simp only [validate] at validated
        split at validated
        · rename_i list
          obtain ⟨checked, isChecked, rfl⟩ := exists_of_map_eq_ok validated
          exact .list list ((checkItems_eq_ok_iff declared items checked).mp isChecked)
        · rename_i notList
          split at validated
          · rename_i any
            exact .single (by simpa using notList) notNull (fun _ _ => any)
              ((checkItem_eq_ok_iff declared _ held).mp validated)
          · cases validated
      · have notList (items : List Value) : value ≠ .list items := fun same => isList ⟨items, same⟩
        rw [validate_of_single declared notNull notList] at validated
        split at validated
        · rename_i list
          obtain ⟨checked, isChecked, rfl⟩ := exists_of_map_eq_ok validated
          exact .wrapped list notNull notList
            ((checkItem_eq_ok_iff declared _ checked).mp isChecked)
        · rename_i single
          exact .single (by simpa using single) notNull
            (fun items same => absurd same (notList items))
            ((checkItem_eq_ok_iff declared _ held).mp validated)
  · intro validated
    cases validated with
    | null => rfl
    | list list fits =>
        simp only [validate, list, if_true]
        exact (map_eq_ok_iff _ _ _).mpr ⟨_, (checkItems_eq_ok_iff declared _ _).mpr fits, rfl⟩
    | wrapped list notNull notList fits =>
        rw [validate_of_single declared notNull notList, if_pos list]
        exact (map_eq_ok_iff _ _ _).mpr ⟨_, (checkItem_eq_ok_iff declared _ _).mpr fits, rfl⟩
    | single single notNull anyList fits =>
        have checked := (checkItem_eq_ok_iff declared _ _).mpr fits
        by_cases isList : ∃ items, value = .list items
        · obtain ⟨items, rfl⟩ := isList
          simp only [validate, single, Bool.false_eq_true, if_false, anyList items rfl, if_true]
          exact checked
        · rw [validate_of_single declared notNull fun items same => isList ⟨items, same⟩]
          simp only [single, Bool.false_eq_true, if_false]
          exact checked

theorem items_of_single {value : Value} (notNull : value ≠ .null)
    (notList : ∀ items, value ≠ .list items) : value.items = [value] := by
  cases value with
  | null => exact absurd rfl notNull
  | list items => exact absurd rfl (notList items)
  | _ => rfl

namespace Validated

variable {declared : Property} {value held : Value}

/-- What a property holds it accepts again. -/
theorem again (validated : graph.Validated declared value held) :
    graph.Validated declared held held := by
  cases validated with
  | null => exact .null
  | list list fits =>
      refine .list list ?_
      induction fits with
      | nil => exact .nil
      | cons fit _ inductionHypothesis => exact .cons (fit?_held fit) inductionHypothesis
  | wrapped list notNull notList fits =>
      exact .list list (List.forall₂_cons.mpr ⟨fit?_held fits, .nil⟩)
  | single single notNull anyList fits =>
      rcases eq_of_fit? fits with rfl | ⟨integer, -, rfl, rfl⟩
      · exact .single single notNull anyList fits
      · refine .single single (fun same => by cases same) (fun items same => by cases same) ?_
        exact fit?_held fits

/-- What a property holds another graph accepts as it is, if it accepts it. -/
theorem eq_of_again {new : Graph} {again : Value} (validated : graph.Validated declared value held)
    (revalidated : new.Validated declared held again) : again = held := by
  cases revalidated with
  | null => rfl
  | list list refits =>
      cases validated with
      | list _ fits => rw [eq_of_fits_again fits refits]
      | wrapped _ _ _ fit => rw [eq_of_fits_again (.cons fit .nil) refits]
      | single single =>
          rw [list] at single
          cases single
  | wrapped list notNull notList refit =>
      cases validated with
      | null => exact absurd rfl notNull
      | list => exact absurd rfl (notList _)
      | wrapped => exact absurd rfl (notList _)
      | single single =>
          rw [list] at single
          cases single
  | single single notNull _ refit =>
      cases validated with
      | null => exact absurd rfl notNull
      | list list =>
          rw [list] at single
          cases single
      | wrapped list =>
          rw [list] at single
          cases single
      | single _ _ _ fit => exact eq_of_fit?_again fit refit

/-- What can be read off each item is the same after the check. -/
theorem filterMap_items {α : Type} {read : Value → Option α}
    (kept : ∀ {item held}, graph.fit? declared.dataType item = some held → read held = read item)
    (validated : graph.Validated declared value held) :
    held.items.filterMap read = value.items.filterMap read := by
  cases validated with
  | null => rfl
  | list list fits =>
      simp only [Value.items]
      induction fits with
      | nil => rfl
      | cons fit _ inductionHypothesis =>
          rw [List.filterMap_cons, List.filterMap_cons, kept fit, inductionHypothesis]
  | wrapped list notNull notList fits =>
      rw [items_of_single notNull notList, Value.items]
      simp only [List.filterMap_cons, kept fits]
  | single single notNull anyList fits =>
      rcases eq_of_fit? fits with rfl | ⟨integer, -, rfl, rfl⟩
      · rfl
      · simp only [Value.items, List.filterMap_cons, kept fits]

theorem nodes_eq (validated : graph.Validated declared value held) : held.nodes = value.nodes :=
  validated.filterMap_items node?_of_fit?

theorem tags_eq (validated : graph.Validated declared value held) : held.tags = value.tags :=
  validated.filterMap_items tag?_of_fit?

/-- Each item of a value that is held was accepted. -/
theorem fit?_of_mem_items (validated : graph.Validated declared value held) {item : Value}
    (member : item ∈ held.items) (notAny : declared.dataType ≠ .any) :
    graph.fit? declared.dataType item = some item := by
  cases validated with
  | null => cases member
  | list list fits =>
      simp only [Value.items] at member
      induction fits with
      | nil => cases member
      | cons fit _ inductionHypothesis =>
          rcases List.mem_cons.mp member with rfl | inRest
          · exact fit?_held fit
          · exact inductionHypothesis inRest
  | wrapped list notNull notList fits =>
      rw [Value.items, List.mem_singleton] at member
      subst member
      exact fit?_held fits
  | single single notNull anyList fits =>
      have heldNotNull : held ≠ .null := by
        rcases eq_of_fit? fits with rfl | ⟨integer, -, rfl, rfl⟩
        · exact notNull
        · exact fun same => by cases same
      have heldNotList (items : List Value) : held ≠ .list items := by
        intro same
        obtain rfl := same
        rcases eq_of_fit? fits with rfl | ⟨integer, -, -, same⟩
        · exact notAny (anyList items rfl)
        · cases same
      rw [items_of_single heldNotNull heldNotList, List.mem_singleton] at member
      subst member
      exact fit?_held fits

/-- The items of a node property are nodes that it admits. -/
theorem admitsNode (validated : graph.Validated declared value held) {base : Option TypeId}
    (isType : declared.dataType = .node base) {item : Value} (member : item ∈ held.items) :
    ∃ id, item = .node id ∧ graph.AdmitsNode base id := by
  have fits := validated.fit?_of_mem_items member (by simp [isType])
  rw [isType] at fits
  obtain ⟨id, isId, -, admits⟩ := (fit?_node_eq_some_iff base item item).mp fits
  exact ⟨id, isId, admits⟩

/-- The nodes in a node property are there. -/
theorem typeOf?_of_mem_nodes (validated : graph.Validated declared value held)
    (isNode : declared.isNode = true) {id : NodeId} (member : id ∈ held.nodes) :
    ∃ type, graph.typeOf? id = some type := by
  obtain ⟨base, isType⟩ := declared.isNode_iff.mp isNode
  obtain ⟨same, isSame, type, isOwn, -⟩ :=
    validated.admitsNode isType ((held.mem_nodes_iff id).mp member)
  cases isSame
  exact ⟨type, isOwn⟩

theorem admitsTag (validated : graph.Validated declared value held) {ns : Option TagId}
    (isType : declared.dataType = .tag ns) {tag : TagId} (member : tag ∈ held.tags) :
    graph.AdmitsTag ns tag := by
  have fits := validated.fit?_of_mem_items ((Value.mem_tags_iff held tag).mp member)
    (by simp [isType])
  rw [isType] at fits
  obtain ⟨same, isTag, -, admits⟩ := (fit?_tag_eq_some_iff ns _ _).mp fits
  cases isTag
  exact admits

theorem tags_of_isNode (validated : graph.Validated declared value held)
    (isNode : declared.isNode = true) : value.tags = [] := by
  rw [← validated.tags_eq]
  refine List.eq_nil_iff_forall_not_mem.mpr fun tag member => ?_
  obtain ⟨base, isType⟩ := declared.isNode_iff.mp isNode
  obtain ⟨id, isId, -⟩ := validated.admitsNode isType ((held.mem_tags_iff tag).mp member)
  cases isId

/-- A graph that admits the nodes and tags of a value accepts it as well. -/
theorem of_admits {new : Graph} (validated : graph.Validated declared value held)
    (nodes : ∀ base id, declared.dataType = .node base → id ∈ value.nodes →
      graph.AdmitsNode base id → new.AdmitsNode base id)
    (tags : ∀ ns tag, declared.dataType = .tag ns → tag ∈ value.tags →
      graph.AdmitsTag ns tag → new.AdmitsTag ns tag) :
    new.Validated declared value held := by
  have transferred {item held : Value} (member : item ∈ value.items)
      (fits : graph.fit? declared.dataType item = some held) :
      new.fit? declared.dataType item = some held := by
    refine fit?_of_fit? ?_ ?_ fits
    · intro base id isType same
      obtain rfl := same
      exact nodes base id isType (List.mem_filterMap.mpr ⟨_, member, rfl⟩)
    · intro ns tag isType same
      obtain rfl := same
      exact tags ns tag isType (List.mem_filterMap.mpr ⟨_, member, rfl⟩)
  cases validated with
  | null => exact .null
  | list list fits =>
      refine .list list ?_
      clear nodes tags
      simp only [Value.items] at transferred
      induction fits with
      | nil => exact .nil
      | cons fit _ inductionHypothesis =>
          refine .cons (transferred (List.mem_cons_self ..) fit) (inductionHypothesis ?_)
          intro item held member
          exact transferred (List.mem_cons_of_mem _ member)
  | wrapped list notNull notList fits =>
      refine .wrapped list notNull notList (transferred ?_ fits)
      simp [items_of_single notNull notList]
  | single single notNull anyList fits =>
      by_cases isList : ∃ items, value = .list items
      · obtain ⟨items, rfl⟩ := isList
        have isAny := anyList items rfl
        rw [isAny] at fits
        exact .single single notNull anyList (by rw [isAny]; exact fits)
      · refine .single single notNull anyList (transferred ?_ fits)
        simp [items_of_single notNull fun items same => isList ⟨items, same⟩]

end Validated

end Graph

end LifecycleGraph
