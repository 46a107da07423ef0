import LifecycleGraph.Collection.Distinct
import LifecycleGraph.Proofs.Graph.Covering
import LifecycleGraph.Proofs.Repository.Atomicity
import LifecycleGraph.Proofs.Repository.Elementary

/-!
# What a node carries when it was filled

A node that was cleared and then given tags and values carries just these: the tags in
their order and each once, after them those of tag values, and each value that has items.
The tags are found by their names, or else created; in what nodes are beside what they carry
the graph is the same, but for the node that is filled.
-/

set_option autoImplicit false

namespace LifecycleGraph

/-! ## Lists that are joined -/

section Joined

variable {α : Type} [DecidableEq α]

/-- A list, and behind it what is new in another one. -/
def joined (list others : List α) : List α :=
  list ++ (firstOccurrences others).filter (· ∉ list)

theorem joined_nil (list : List α) : joined list [] = list := List.append_nil list

theorem nil_joined (others : List α) : joined [] others = firstOccurrences others := by
  simp [joined]

theorem firstOccurrences_of_nodup {list : List α} (once : list.Nodup) :
    firstOccurrences list = list := by
  induction list with
  | nil => rfl
  | cons member rest inductionHypothesis =>
      obtain ⟨isNew, once⟩ := List.nodup_cons.mp once
      rw [firstOccurrences, inductionHypothesis once]
      refine congrArg (member :: ·) (List.filter_eq_self.mpr fun other inRest => ?_)
      simpa using fun same : other = member => isNew (same ▸ inRest)

/-- What is joined can be joined member by member. -/
theorem joined_cons (list : List α) (member : α) (others : List α) :
    joined list (member :: others) =
      joined (if member ∈ list then list else list ++ [member]) others := by
  rw [joined, firstOccurrences]
  split
  · rename_i known
    rw [List.filter_cons_of_neg (by simpa using known), List.filter_filter, joined]
    refine congrArg (list ++ ·) (List.filter_congr fun other _ => ?_)
    have absent (isNew : other ∉ list) : other ≠ member := fun same => isNew (same ▸ known)
    by_cases isNew : other ∉ list
    · simp [isNew, absent isNew]
    · simp [isNew]
  · rename_i isNew
    rw [List.filter_cons_of_pos (by simpa using isNew), List.filter_filter, joined,
      List.append_assoc]
    refine congrArg (list ++ member :: ·) (List.filter_congr fun other _ => ?_)
    simp [Bool.and_comm]

end Joined

/-- The tags that names stand for, one name after the other.  A name that no tag has yet is
given one, which the names behind it may find. -/
def Forest.tagsOrCreate : List String → Change Forest (List TagId)
  | [] => pure []
  | name :: rest => do
      let tag ← tagOrCreate name none
      let others ← tagsOrCreate rest
      pure (tag :: others)

theorem Forest.tagsOrCreate_cons {name : String} {rest : List String} {tag : TagId}
    {others : List TagId} {forest grown changed : Forest}
    (first : (tagOrCreate name none).apply forest = (.ok tag, grown))
    (onwards : (tagsOrCreate rest).apply grown = (.ok others, changed)) :
    (tagsOrCreate (name :: rest)).apply forest = (.ok (tag :: others), changed) := by
  rw [tagsOrCreate, Change.apply_bind, first]
  simp only [Change.apply_bind, onwards, Change.apply_pure]

/-- Names of tags that are there create none. -/
theorem Forest.tagsOrCreate_of_known {names : List String} {given : List TagId} {forest : Forest}
    (known : List.Forall₂ (fun name tag => forest.lookup? name = some tag) names given) :
    (tagsOrCreate names).apply forest = (.ok given, forest) := by
  induction known with
  | nil => rfl
  | cons isTag _ inductionHypothesis =>
      refine tagsOrCreate_cons ?_ inductionHypothesis
      simp only [tagOrCreate, Change.apply_bind, Change.apply_get, isTag, Change.apply_pure]

theorem Change.leads_apply {σ α : Type} (change : Change σ α) (state : σ) :
    change.Leads state (fun answer changed => change.apply state = (.ok answer, changed))
      (fun _ => True) := by
  rw [Leads]
  split
  · rename_i applied
    exact applied
  · trivial

namespace Graph

variable {graph start state : Graph} {id : NodeId} {entries : List (PropertyId × Value)}
  {flat : List TagId}

/-- The value that entries give to a property; one without items gives none. -/
def entered (entries : List (PropertyId × Value)) (property : PropertyId) : Option Value :=
  (Table.findIn property entries).filter fun value => !value.items.isEmpty

/-- The tags that entries give to a node, in their order. -/
def enteredTags (graph : Graph) (entries : List (PropertyId × Value)) : List TagId :=
  entries.flatMap fun entry => graph.tagsUnder entry.1 entry.2

theorem entered_of_not_mem {property : PropertyId}
    (absent : property ∉ entries.map Prod.fst) : entered entries property = none := by
  rw [entered, Table.findIn_of_not_mem absent, Option.filter_none]

theorem entered_of_mem (distinct : (entries.map Prod.fst).Nodup) {property : PropertyId}
    {value : Value} (member : (property, value) ∈ entries) :
    entered entries property = if value.items.isEmpty then none else some value := by
  rw [entered, Table.findIn_of_mem distinct member]
  by_cases empty : value.items.isEmpty = true <;> simp [Option.filter, empty]

theorem entered_concat {property : PropertyId} (absent : property ∉ entries.map Prod.fst)
    (value : Value) (other : PropertyId) :
    entered (entries ++ [(property, value)]) other =
      if other = property then if value.items.isEmpty then none else some value
      else entered entries other := by
  rw [entered, Table.findIn_append]
  split
  · rename_i same
    rw [same, Table.findIn_of_not_mem absent]
    by_cases empty : value.items.isEmpty = true <;>
      simp [Table.findIn, Option.filter, empty]
  · rename_i different
    rw [Table.findIn, if_neg (Ne.symm different), Table.findIn, Option.or_none, entered]

/-- On the way of filling: a node carries what was entered, and these tags. -/
structure Carrying (start : Graph) (id : NodeId) (entries : List (PropertyId × Value))
    (flat : List TagId) (state : Graph) : Prop extends SameBared start state where
  sound : state.Sound
  node : ∃ node, state.node? id = some node ∧ node.tags = flat ∧
    ∀ property, node.value? property = entered entries property

/-- A property takes a value as it is, in whatever graph it takes it. -/
def Settles (graph : Graph) (property : PropertyId) (value : Value) : Prop :=
  ∃ declared, graph.property? property = some declared ∧
    ∀ (state : Graph) held, state.Validated declared value held → held = value

theorem Altered.node?
    {change : Table PropertyId Value × List TagId → Table PropertyId Value × List TagId}
    {old new : Graph} (altered : Altered id change old new) {node : Node}
    (found : old.node? id = some node) :
    ∃ now, new.node? id = some now ∧ now.carried = change node.carried := by
  have known := altered.carried id
  rw [found, Option.map_some, if_pos rfl] at known
  exact Option.map_eq_some_iff.mp known

namespace Carrying

/-- Changes of the flat list alone. -/
theorem relist (carrying : Carrying start id entries flat state) {changed : Graph}
    (change : List TagId → List TagId) (sound : changed.Sound) (same : start.SameBared changed)
    (altered : Altered id (fun carried => (carried.1, change carried.2)) state changed) :
    Carrying start id entries (change flat) changed := by
  obtain ⟨node, found, rfl, values⟩ := carrying.node
  obtain ⟨now, isNow, carried⟩ := altered.node? found
  obtain ⟨properties, list⟩ := Prod.mk.inj carried
  refine ⟨same, sound, now, isNow, list, fun property => ?_⟩
  rw [Node.value?, properties]
  exact values property

theorem leads_removeTag (carrying : Carrying start id entries flat state) (tag : TagId) :
    (removeTag id tag).Leads state (fun _ => Carrying start id entries (flat.erase tag))
      (fun _ => True) := by
  have keeps := (indifferent_sameBared start).keeps_removeTag id tag state carrying.toSameBared
  refine (((Graph.leads_removeTag carrying.sound id tag).and keeps).and
    (leads_removeTag_altered carrying.sound.listed id tag)).imp ?_ fun _ _ => trivial
  intro _ changed outcome
  obtain ⟨⟨⟨sound, -⟩, same⟩, altered⟩ := outcome
  exact carrying.relist (·.erase tag) sound same altered

/-- A tag that is given comes last, unless it is there. -/
theorem leads_addTag (carrying : Carrying start id entries flat state) (tag : TagId) :
    (addTag id tag).Leads state
      (fun _ => Carrying start id entries (if tag ∈ flat then flat else flat ++ [tag]))
      (fun _ => True) := by
  obtain ⟨node, found, isFlat, -⟩ := carrying.node
  rw [addTag]
  refine leads_nodeOrFault_bind (fun _ => trivial) fun same isSame => ?_
  obtain rfl := Option.some.inj (found.symm.trans isSame)
  by_cases known : tag ∈ flat
  · rw [if_pos (by simpa [isFlat] using known), if_pos known]
    exact carrying
  · rw [if_neg (by simpa [isFlat] using known), if_neg known]
    have keeps := (indifferent_sameBared start).keeps_pushTag id tag state carrying.toSameBared
    refine (((leads_pushTag carrying.sound id tag).and keeps).and
      (leads_pushTag_altered id tag state)).imp ?_ fun _ _ => trivial
    intro _ later outcome
    obtain ⟨⟨⟨sound, -⟩, same⟩, altered⟩ := outcome
    exact carrying.relist (· ++ [tag]) sound same altered

theorem regrown {grown : Forest} (carrying : Carrying start id entries flat state)
    (grows : Forest.LinkedFrom state.tags grown) :
    Carrying { start with tags := grown } id entries flat { state with tags := grown } where
  types := carrying.types
  tags := rfl
  states := carrying.states
  bared := carrying.bared
  sound := carrying.sound.regrown grows state.states
  node := carrying.node

/-- A value is given to a property without one: all its tags come last. -/
theorem leads_setProperty (carrying : Carrying start id entries flat state)
    {property : PropertyId} {value : Value} (isNew : property ∉ entries.map Prod.fst)
    (settles : start.Settles property value) :
    (setProperty id property value).Leads state
      (fun _ => Carrying start id (entries ++ [(property, value)])
        (flat ++ start.tagsUnder property value)) (fun _ => True) := by
  obtain ⟨node, found, rfl, values⟩ := carrying.node
  obtain ⟨declared, isDeclared, isOwn⟩ := settles
  have keeps := (indifferent_sameBared start).keeps_setProperty id property value state
    carrying.toSameBared
  refine (((Graph.leads_setProperty carrying.sound id property value).and keeps).and
    (leads_setProperty_altered carrying.sound.listed id property value)).imp ?_ fun _ _ => trivial
  intro _ changed outcome
  obtain ⟨⟨⟨sound, -⟩, same⟩, again, known, held, isAgain, isKnown, alsoHeld, altered⟩ := outcome
  rw [property?_of_types carrying.types, isDeclared] at isAgain
  obtain rfl := Option.some.inj isAgain
  obtain rfl := Option.some.inj (found.symm.trans isKnown)
  rw [isOwn state held alsoHeld, values, entered_of_not_mem isNew, Option.getD_none] at altered
  obtain ⟨now, isNow, carried⟩ := altered.node? found
  obtain ⟨properties, list⟩ := Prod.mk.inj carried
  have under : start.tagsUnder property value = if declared.isTag then value.tags else [] := by
    rw [tagsUnder, isDeclared, Option.any_some]
  refine ⟨same, sound, now, isNow, ?_, fun other => ?_⟩
  · rw [list, under]
    by_cases isTag : declared.isTag = true
    · have kept : value.tags.filter (fun tag => !([] : List TagId).contains tag) = value.tags :=
        List.filter_eq_self.mpr fun _ _ => rfl
      simp only [isTag, if_true]
      rw [relisted]
      exact congrArg (node.tags ++ ·) kept
    · simp [isTag, Node.carried]
  · rw [entered_concat isNew, ← values, Node.value?, properties]
    exact find?_hold value node other

end Carrying

/-- A node is moved to a state, and nothing else is said of any node. -/
theorem leads_setState_moved (id : NodeId) (target : Option StateId) (graph : Graph) :
    (setState id target).Leads graph
      (fun _ changed =>
        changed = { graph with nodes := changed.nodes, stateMembers := changed.stateMembers } ∧
        ∀ other, changed.node? other =
          if other = id then (graph.node? other).map fun node => { node with state := target }
          else graph.node? other)
      (fun _ => True) := by
  rw [setState, Change.leads_ofFunction]
  cases target.filter fun target => (graph.state? target).isNone with
  | some missing => trivial
  | none =>
      cases found : graph.node? id with
      | none => trivial
      | some node =>
          simp only
          by_cases already : node.state = target
          · simp only [already, if_true, true_and]
            intro other
            split
            · rename_i same
              rw [same, found, Option.map_some, ← already]
            · rfl
          · simp only [already, if_false]
            exact ⟨rfl, fun other => node?_adjustNode graph id other _⟩

end Graph

namespace Repository

open Graph

variable {graph start state : Graph} {id : NodeId} {node : Node}
  {entries : List (PropertyId × Value)} {flat : List TagId}

theorem leads_clearNode_carrying (sound : graph.Sound) (id : NodeId) :
    (clearNode id).Leads graph (fun _ => Carrying graph id [] []) (fun _ => True) := by
  rw [clearNode]
  refine leads_nodeOrFault_bind (fun _ => trivial) fun node found => ?_
  have keeps : (clearProperties id node.properties.keys).Keeps graph.SameBared :=
    Change.keeps_forEach fun property =>
      (indifferent_sameBared graph).keeps_setProperty id property .null
  refine Change.leads_bind _ (((leads_clearProperties sound found).and
    (keeps graph (.refl graph))).imp (fun _ _ both => both) fun _ _ => trivial) ?_
  intro _ cleared outcome
  obtain ⟨emptied, same⟩ := outcome
  refine leads_nodeOrFault_bind (fun _ => trivial) fun node found => ?_
  have carrying : Carrying graph id [] node.tags cleared := by
    refine ⟨same, emptied.sound, node, found, rfl, fun property => ?_⟩
    rw [← valueAt?_of_node? found]
    exact emptied.empty property
  have unlisting : (Change.forEach node.tags fun tag => do
      let _ ← removeTag id tag).Leads cleared
        (fun _ => Carrying graph id [] (node.tags.diff node.tags)) (fun _ => True) := by
    refine Change.leads_forEach_progress
      (fun done state => Carrying graph id [] (node.tags.diff done) state) carrying ?_
    intro done tag rest _ state reached
    refine Change.leads_bind _ (reached.leads_removeTag tag) fun _ after removed => ?_
    rw [List.diff_append, List.diff_cons, List.diff_nil]
    exact Change.leads_pure removed
  have nothing : node.tags.diff node.tags = [] := by
    refine List.eq_nil_iff_forall_not_mem.mpr fun tag member => ?_
    have left := List.count_pos_iff.mpr member
    rw [List.count_diff, Nat.sub_self] at left
    exact Nat.lt_irrefl 0 left
  rwa [nothing] at unlisting

theorem leads_giveTag_carrying (name : String)
    (carrying : Carrying { start with tags := state.tags } id entries flat state) :
    (tagOrCreate name none >>= fun tag => addTag id tag).Leads state
      (fun _ changed => ∃ tag,
        (Forest.tagOrCreate name none).apply state.tags = (.ok tag, changed.tags) ∧
          Carrying { start with tags := changed.tags } id entries
            (if tag ∈ flat then flat else flat ++ [tag]) changed)
      (fun _ => True) := by
  refine Change.leads_bind (fun tag changed =>
    (Forest.tagOrCreate name none).apply state.tags = (.ok tag, changed.tags) ∧
      Carrying { start with tags := changed.tags } id entries flat changed)
    (Change.leads_within (((Forest.leads_tagOrCreate carrying.sound.listed.linked name
      none).and (Change.leads_apply _ _)).imp ?_ fun _ _ => trivial)) ?_
  · intro tag grown outcome
    obtain ⟨⟨grows, -⟩, applied⟩ := outcome
    exact ⟨applied, carrying.regrown grows⟩
  · intro tag grown outcome
    obtain ⟨applied, carrying⟩ := outcome
    refine (carrying.leads_addTag tag).imp ?_ fun _ _ => trivial
    intro _ changed carrying
    have same : changed.tags = grown.tags := carrying.tags
    rw [same]
    exact ⟨tag, applied, carrying⟩

theorem leads_giveTags_carrying {names : List String}
    (carrying : Carrying { start with tags := state.tags } id entries flat state) :
    (Change.forEach names fun name => do
      let tag ← tagOrCreate name none
      addTag id tag).Leads state
        (fun _ changed => ∃ given,
          (Forest.tagsOrCreate names).apply state.tags = (.ok given, changed.tags) ∧
            Carrying { start with tags := changed.tags } id entries (joined flat given) changed)
        (fun _ => True) := by
  induction names generalizing flat state with
  | nil => exact ⟨[], rfl, by rwa [joined_nil]⟩
  | cons name rest inductionHypothesis =>
      refine Change.leads_bind _ (leads_giveTag_carrying name carrying) fun _ changed outcome => ?_
      obtain ⟨tag, applied, carrying⟩ := outcome
      refine (inductionHypothesis carrying).imp ?_ fun _ _ => trivial
      intro _ later outcome
      obtain ⟨given, onwards, carrying⟩ := outcome
      refine ⟨tag :: given, Forest.tagsOrCreate_cons applied onwards, ?_⟩
      rwa [joined_cons]

theorem Acceptable.settles {property : PropertyId} {value : Value}
    (acceptable : Acceptable graph id property value) : graph.Settles property value := by
  obtain ⟨declared, offers, validated, -⟩ := acceptable
  exact ⟨declared, offers.1, fun _ _ => validated.eq_of_again⟩

theorem leads_giveValues_carrying {values : List (PropertyId × Value)}
    (settles : ∀ entry ∈ values, start.Settles entry.1 entry.2)
    (distinct : ((entries ++ values).map Prod.fst).Nodup)
    (carrying : Carrying start id entries flat state) :
    (Change.forEach values fun (property, value) => setProperty id property value).Leads state
      (fun _ => Carrying start id (entries ++ values) (flat ++ start.enteredTags values))
      (fun _ => True) := by
  induction values generalizing entries flat state with
  | nil =>
      rw [List.append_nil, enteredTags, List.flatMap_nil, List.append_nil]
      exact carrying
  | cons entry rest inductionHypothesis =>
      obtain ⟨property, value⟩ := entry
      have isNew : property ∉ entries.map Prod.fst := by
        rw [List.map_append] at distinct
        exact fun member => List.disjoint_of_nodup_append distinct member (List.mem_cons_self ..)
      refine Change.leads_bind _ (carrying.leads_setProperty isNew
        (settles (property, value) (List.mem_cons_self ..))) ?_
      intro _ changed further
      rw [List.append_cons] at distinct ⊢
      rw [enteredTags, List.flatMap_cons, ← List.append_assoc]
      exact inductionHypothesis
        (fun entry member => settles entry (List.mem_cons_of_mem _ member)) distinct further

/-- What a node is when it is filled, beside what it carries. -/
def refilled (content : NodeContent) (preparation : Preparation) (node : Node) : Node :=
  { node with
    state := preparation.state
    description := content.description
    services := .ofList content.services }

/-- A node is filled with a content and carries nothing else, and no other node becomes another
one. -/
structure Filled (graph : Graph) (id : NodeId) (node : Node) (content : NodeContent)
    (preparation : Preparation) (given : List TagId) (changed : Graph) : Prop where
  types : changed.types = graph.types
  states : changed.states = graph.states
  tags : (Forest.tagsOrCreate content.tags).apply graph.tags = (.ok given, changed.tags)
  node : ∃ now, changed.node? id = some now ∧
    now.bared = (refilled content preparation node).bared ∧
    now.tags = firstOccurrences given ++ graph.enteredTags preparation.values ∧
    ∀ property, now.value? property = entered preparation.values property
  others : ∀ other, other ≠ id →
    (changed.node? other).map Node.bared = (graph.node? other).map Node.bared

theorem leads_fill_filled (sound : graph.Sound) (found : graph.node? id = some node)
    (content : NodeContent) {preparation : Preparation}
    (settles : ∀ entry ∈ preparation.values, graph.Settles entry.1 entry.2)
    (distinct : (preparation.values.map Prod.fst).Nodup) :
    (fill id content preparation).Leads graph
      (fun _ changed => ∃ given, Filled graph id node content preparation given changed)
      (fun _ => True) := by
  rw [fill]
  refine Change.leads_bind _ (leads_clearNode_carrying sound id) fun _ cleared carrying => ?_
  have tags : cleared.tags = graph.tags := carrying.tags
  have emptied : Carrying { graph with tags := cleared.tags } id [] [] cleared := by
    rw [tags]
    exact carrying
  refine Change.leads_bind _ (leads_giveTags_carrying emptied) fun _ tagged outcome => ?_
  obtain ⟨given, applied, carrying⟩ := outcome
  rw [tags] at applied
  rw [nil_joined] at carrying
  -- From here on the forest does not grow any more.
  have stillSettles : ∀ entry ∈ preparation.values,
      { graph with tags := tagged.tags }.Settles entry.1 entry.2 := settles
  refine Change.leads_bind _ (leads_giveValues_carrying stillSettles (by rwa [List.nil_append])
    carrying) fun _ valued carrying => ?_
  refine Change.leads_bind _ (leads_setState_moved id preparation.state valued)
    fun _ settled outcome => ?_
  obtain ⟨frame, moved⟩ := outcome
  obtain ⟨own, isOwn, flat, values⟩ := carrying.node
  obtain ⟨same, isSame, bared⟩ := carrying.toSameBared.node? found
  obtain rfl := Option.some.inj (isOwn.symm.trans isSame)
  refine Change.leads_modify ⟨given, {
    types := (congrArg Graph.types frame :).trans carrying.types
    states := (congrArg Graph.states frame :).trans carrying.states
    tags := ?_
    node := ⟨refilled content preparation own, ?_, ?_, flat, values⟩
    others := fun other different => ?_ }⟩
  · rw [applied]
    exact congrArg (Prod.mk _) ((congrArg Graph.tags frame :).trans carrying.tags).symm
  · rw [node?_adjustNode, if_pos rfl, moved, if_pos rfl, isOwn]
    rfl
  · exact congrArg (refilled content preparation) bared
  · rw [node?_adjustNode, if_neg different, moved, if_neg different]
    exact carrying.bared other

/-- A node that is filled with what it is, and with tags that are known, is the same node. -/
theorem Filled.sameBared {content : NodeContent} {preparation : Preparation} {given : List TagId}
    {changed : Graph} (filled : Filled graph id node content preparation given changed)
    (found : graph.node? id = some node) (same : refilled content preparation node = node)
    (tags : changed.tags = graph.tags) : graph.SameBared changed where
  types := filled.types
  tags := tags
  states := filled.states
  bared other := by
    by_cases isId : other = id
    · obtain ⟨now, isNow, bared, -⟩ := filled.node
      rw [isId, isNow, found, Option.map_some, Option.map_some, bared, same]
    · exact filled.others other isId

end Repository

end LifecycleGraph
