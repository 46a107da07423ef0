import LifecycleGraph.Proofs.Repository.Reference
import LifecycleGraph.Query.Path

/-!
# What property paths read

A step that is taken naively reads the property that its name finds on the type of a
node or, backwards, all nodes that hold the node under the name.  A resolved step
looks at few properties only: those that some type of its context can have, and on a
node the most derived one of these.  In a sound graph where no node has a value for a
hidden property nothing is lost by that, as each value tells that the type of its
node has the property and each reference that its target is admitted.
-/

set_option autoImplicit false

namespace LifecycleGraph

theorem Roster.mem_entries_of_find? {α ω : Type} {roster : Roster α ω} {name : String}
    {member : α} (found : roster.find? name = some member) : (name, member) ∈ roster.entries := by
  obtain ⟨slot, isSlot, held⟩ := Option.bind_eq_some_iff.mp found
  refine List.mem_of_getElem? (List.getElem?_zip_eq_some.mpr ⟨?_, held⟩)
  exact (roster.getElem?_names_iff slot name).mpr isSlot

namespace Graph

variable {graph : Graph} {name : String} {property : Property}

/-! ## Declarations under a name -/

/-- Some type declares the property under the name. -/
def DeclaresAs (graph : Graph) (name : String) (property : Property) : Prop :=
  ∃ type ∈ graph.types.members, type.property? name = some property

/-- A node with a value for a declared property finds that property under its name. -/
def HidesNothing (graph : Graph) : Prop :=
  ∀ node ∈ graph.nodes.values, ∀ type ∈ graph.types.members,
    ∀ entry ∈ type.properties.entries, (node.value? entry.2.id).isSome = true →
      (graph.findProperty? node.type entry.1).map Property.id = some entry.2.id

theorem declaresAs_of_type? {id : TypeId} {type : NodeType} (isType : graph.type? id = some type)
    (found : type.property? name = some property) : graph.DeclaresAs name property :=
  ⟨type, (graph.types.mem_members_iff type).mpr ⟨id.index, isType⟩, found⟩

theorem declaresAs_of_findProperty? {type : TypeId}
    (found : graph.findProperty? type name = some property) : graph.DeclaresAs name property := by
  obtain ⟨ancestor, -, declares⟩ := List.exists_of_findSome?_eq_some found
  obtain ⟨declaring, isType, isProperty⟩ := Option.bind_eq_some_iff.mp declares
  exact declaresAs_of_type? isType isProperty

/-- The declaring type is the owner, and the handle leads to the property. -/
theorem DeclaresAs.owned (declares : graph.DeclaresAs name property) (typed : graph.Typed) :
    graph.property? property.id = some property ∧
      ∃ type, graph.type? property.owner = some type ∧ type.property? name = some property := by
  obtain ⟨type, member, found⟩ := declares
  obtain ⟨slot, isType⟩ := (graph.types.mem_members_iff type).mp member
  have isType : graph.type? ⟨slot⟩ = some type := isType
  obtain ⟨isProperty, isOwner⟩ := typed.property?_id isType
    ((type.properties.mem_members_iff property).mpr (Roster.exists_at?_of_find? found))
  refine ⟨isProperty, type, ?_, found⟩
  rwa [isOwner]

namespace Sound

variable (sound : graph.Sound) (declares : graph.DeclaresAs name property) {id : NodeId}
  {node : Node} {held : Value}
include sound declares

/-- Who holds a value is of the type that declares the property. -/
theorem offers (found : graph.node? id = some node)
    (isValue : node.value? property.id = some held) :
    graph.isSubtype node.type property.owner = true ∧ graph.Fits property held := by
  obtain ⟨declared, ⟨isDeclared, own, isOwn, below⟩, -, fits⟩ :=
    sound.referenced.held ((valueAt?_of_node? found property.id).trans isValue)
  rw [(declares.owned sound.listed.schema).1] at isDeclared
  cases isDeclared
  rw [typeOf?_of_node? found] at isOwn
  cases isOwn
  exact ⟨below, fits⟩

/-- The items of a node property are nodes that it admits. -/
theorem admits {source target : NodeId} {base : Option TypeId}
    (isType : property.dataType = .node base)
    (isValue : graph.valueAt? source property.id = some held)
    (member : .node target ∈ held.items) : graph.AdmitsNode base target := by
  obtain ⟨holder, found, isValue⟩ := Option.bind_eq_some_iff.mp isValue
  have isNode : property.isNode = true := property.isNode_iff.mpr ⟨base, isType⟩
  obtain ⟨same, isSame, admits⟩ :=
    ((sound.offers declares found isValue).2.nodes isNode).admitsNode isType member
  cases isSame
  exact admits

theorem mem_referrersBy_iff (isNode : property.isNode = true) (found : graph.node? id = some node)
    (source : NodeId) :
    source ∈ node.referrersBy property.id ↔
      ∃ held, graph.valueAt? source property.id = some held ∧ .node id ∈ held.items := by
  have mirrored := sound.referenced.refersBack_iff (declares.owned sound.listed.schema).1 isNode
    id source
  rw [refersBack, found, Option.any_some] at mirrored
  rw [Node.referrersBy, Table.mem_listed_iff, mirrored, Value.mem_nodes_iff]
  cases graph.valueAt? source property.id with
  | none => simp [Value.items]
  | some held => simp

theorem findProperty?_eq (hidesNothing : graph.HidesNothing) (found : graph.node? id = some node)
    (isValue : node.value? property.id = some held) :
    graph.findProperty? node.type name = some property := by
  obtain ⟨type, member, isProperty⟩ := declares
  have isLive : node ∈ graph.nodes.values := (graph.nodes.mem_values_iff node).mpr ⟨id.index, found⟩
  have same := hidesNothing node isLive type member (name, property)
    (Roster.mem_entries_of_find? isProperty) (by rw [isValue]; rfl)
  obtain ⟨other, isOther, sameId⟩ := Option.map_eq_some_iff.mp same
  have declared := ((declaresAs_of_findProperty? isOther).owned sound.listed.schema).1
  have sameId : other.id = property.id := sameId
  rw [sameId, (DeclaresAs.owned ⟨type, member, isProperty⟩ sound.listed.schema).1] at declared
  cases declared
  exact isOther

end Sound

end Graph

namespace PathStep

open Graph

variable {graph : Graph} {step : PathStep} {needNode : Bool} {context : Option (List TypeId)}
  {id : NodeId} {value : Value}

/-! ## Steps -/

/-- What a step leads to, naively. -/
def Reads (graph : Graph) (step : PathStep) (needNode : Bool) (id : NodeId) (value : Value) :
    Prop :=
  if step.reverse then
    ∃ source declared held, value = .node source ∧ graph.DeclaresAs step.name declared ∧
      declared.isNode = true ∧ graph.valueAt? source declared.id = some held ∧
      .node id ∈ held.items
  else
    ∃ node declared held, graph.node? id = some node ∧
      graph.findProperty? node.type step.name = some declared ∧
      (needNode = true → declared.isNode = true) ∧ node.value? declared.id = some held ∧
      value ∈ held.items

/-- What a step leads to along one property, whatever the type of the node. -/
def ReadsAlong (step : PathStep) (property : PropertyId) (node : Node)
    (value : Value) : Prop :=
  if step.reverse then ∃ source ∈ node.referrersBy property, value = .node source
  else ∃ held, node.value? property = some held ∧ value ∈ held.items

theorem mem_valuesOf_iff (bound : BoundStep) (same : bound.reverse = step.reverse) (node : Node)
    (property : PropertyId) :
    (∃ type, (value, type) ∈ bound.valuesOf graph node property) ↔
      step.ReadsAlong property node value := by
  rw [ReadsAlong, BoundStep.valuesOf, same]
  split
  · simp [eq_comm]
  · cases node.value? property <;> simp [Value.items]

/-! ## Candidates -/

/-- A candidate stands for a declared property under the name of its step. -/
theorem mem_candidates_iff (candidate : Candidate) :
    candidate ∈ step.candidates graph needNode context ↔
      ∃ property, graph.DeclaresAs step.name property ∧
        (needNode = true → property.isNode = true) ∧ step.follow? property = some candidate ∧
        reachable graph context candidate = true := by
  rw [candidates, List.mem_filterMap]
  constructor
  · intro given
    obtain ⟨type, member, chosen⟩ := given
    obtain ⟨property, isProperty, chosen⟩ := Option.bind_eq_some_iff.mp chosen
    simp only at chosen
    split at chosen
    · cases chosen
    · rename_i admitted
      obtain ⟨other, isOther, chosen⟩ := Option.bind_eq_some_iff.mp chosen
      split at chosen
      · rename_i isReachable
        cases chosen
        refine ⟨property, ⟨type, member, isProperty⟩, fun need => ?_, isOther, isReachable⟩
        simpa [need] using admitted
      · cases chosen
  · intro given
    obtain ⟨property, ⟨type, member, isProperty⟩, admitted, followed, isReachable⟩ := given
    have wanted : ¬ (needNode && !property.isNode) = true := by
      cases needNode with
      | false => exact Bool.false_ne_true
      | true => simp [admitted rfl]
    refine ⟨type, member, ?_⟩
    simp only [isProperty, Option.bind_eq_bind, Option.bind_some, if_neg wanted, followed,
      if_pos isReachable]

theorem follow?_forwards (forwards : step.reverse = false) (property : Property) :
    step.follow? property = some ⟨some property.owner, property.id, property.dataType⟩ := by
  rw [follow?, forwards]
  rfl

theorem follow?_backwards_eq_some_iff (backwards : step.reverse = true) (property : Property)
    (candidate : Candidate) :
    step.follow? property = some candidate ↔
      ∃ base, property.dataType = .node base ∧
        candidate = ⟨base, property.id, .node (some property.owner)⟩ := by
  rw [follow?, backwards, if_pos rfl]
  cases property.dataType <;> simp [eq_comm]

/-! ## Where a bound step looks -/

theorem mem_of_mem_propertiesFor {candidates : List Candidate} {type : TypeId}
    {property : PropertyId} (member : property ∈ (step.bind candidates).propertiesFor graph type) :
    ∃ candidate ∈ candidates, candidate.property = property := by
  unfold bind at member
  split at member
  · rename_i candidate
    simp only [BoundStep.propertiesFor] at member
    split at member
    · exact ⟨candidate, List.mem_singleton_self _, (List.mem_singleton.mp member).symm⟩
    · cases member
  · simp only [BoundStep.propertiesFor] at member
    split at member
    · obtain ⟨pair, kept, rfl⟩ := List.mem_map.mp member
      obtain ⟨candidate, inCandidates, rfl⟩ := List.mem_map.mp (List.mem_filter.mp kept).1
      exact ⟨candidate, inCandidates, rfl⟩
    · obtain ⟨ancestor, -, chosen⟩ :=
        List.exists_of_findSome?_eq_some (Option.mem_toList.mp member)
      obtain ⟨pair, isPair, rfl⟩ := Option.map_eq_some_iff.mp chosen
      obtain ⟨candidate, inCandidates, rfl⟩ := List.mem_map.mp (List.mem_of_find?_eq_some isPair)
      exact ⟨candidate, inCandidates, rfl⟩

theorem mem_propertiesFor_backwards (backwards : step.reverse = true)
    {candidates : List Candidate} {candidate : Candidate} (member : candidate ∈ candidates)
    {type : TypeId} (admitted : candidate.source.all (graph.isSubtype type) = true) :
    candidate.property ∈ (step.bind candidates).propertiesFor graph type := by
  unfold bind
  split
  · obtain rfl := List.mem_singleton.mp member
    simp [BoundStep.propertiesFor, backwards]
  · simp only [BoundStep.propertiesFor, backwards, if_pos]
    refine List.mem_map.mpr ⟨(candidate.source, candidate.property), ?_, rfl⟩
    exact List.mem_filter.mpr ⟨List.mem_map.mpr ⟨candidate, member, rfl⟩, admitted⟩

/-- Forwards, the candidate that starts from a type is what the type itself declares. -/
theorem declared_of_source (typed : graph.Typed) (forwards : step.reverse = false)
    {candidate : Candidate} (member : candidate ∈ step.candidates graph needNode context)
    {type : TypeId} (isSource : candidate.source = some type) :
    ∃ property, ((graph.type? type).bind fun type => type.property? step.name) = some property ∧
      candidate.property = property.id := by
  obtain ⟨property, declares, -, followed, -⟩ := (mem_candidates_iff candidate).mp member
  rw [follow?_forwards forwards, Option.some.injEq] at followed
  subst followed
  cases isSource
  obtain ⟨-, owner, isOwner, found⟩ := declares.owned typed
  exact ⟨property, Option.bind_eq_some_iff.mpr ⟨owner, isOwner, found⟩, rfl⟩

theorem find?_source {candidates : List Candidate} {source : TypeId} {property : PropertyId}
    (present : ∃ candidate ∈ candidates, candidate.source = some source)
    (same : ∀ candidate ∈ candidates, candidate.source = some source →
      candidate.property = property) :
    ((candidates.map fun candidate => (candidate.source, candidate.property)).find?
      fun candidate => candidate.1 == some source).map Prod.snd = some property := by
  rw [List.find?_map, Option.map_map]
  cases first : candidates.find? _ with
  | none =>
      obtain ⟨candidate, member, isSource⟩ := present
      exact absurd (beq_iff_eq.mpr isSource) (List.find?_eq_none.mp first candidate member)
  | some candidate =>
      have isSource : candidate.source = some source := by simpa using List.find?_some first
      exact congrArg some (same candidate (List.mem_of_find?_eq_some first) isSource)

/-- Forwards, the property that a type finds under the name is looked at, if it is a candidate. -/
theorem mem_propertiesFor_forwards (typed : graph.Typed) (forwards : step.reverse = false)
    {candidate : Candidate} (member : candidate ∈ step.candidates graph needNode context)
    {type : TypeId} {property : Property} (same : candidate.property = property.id)
    (isSource : candidate.source = some property.owner)
    (below : graph.isSubtype type property.owner = true)
    (found : graph.findProperty? type step.name = some property) :
    candidate.property ∈
      (step.bind (step.candidates graph needNode context)).propertiesFor graph type := by
  unfold bind
  split
  · rename_i only whole
    obtain rfl := List.mem_singleton.mp (whole ▸ member)
    simp [BoundStep.propertiesFor, same, Property.id, below]
  · simp only [BoundStep.propertiesFor, forwards, Bool.false_eq_true, if_false]
    rw [Option.mem_toList]
    -- The declaration that is found is the first one along the base chain, and no type before
    -- the declaring one is the source of a candidate.
    obtain ⟨before, declaring, after, chain, isDeclared, nearer⟩ :=
      List.findSome?_eq_some_iff.mp found
    refine List.findSome?_eq_some_iff.mpr ⟨before, declaring, after, chain, ?_, ?_⟩
    · obtain ⟨owner, isOwner, isProperty⟩ := Option.bind_eq_some_iff.mp isDeclared
      have owned := (typed.property?_id isOwner
        ((owner.properties.mem_members_iff property).mpr (Roster.exists_at?_of_find? isProperty))).2
      refine find?_source ⟨candidate, member, isSource.trans (congrArg some owned)⟩ ?_
      intro other isOther sameSource
      obtain ⟨declared, isOther, sameProperty⟩ :=
        declared_of_source typed forwards isOther sameSource
      rw [isDeclared] at isOther
      cases isOther
      rw [sameProperty, same]
    · intro ancestor isBefore
      rw [Option.map_eq_none_iff, List.find?_eq_none]
      intro pair isPair same
      obtain ⟨other, isOther, rfl⟩ := List.mem_map.mp isPair
      obtain ⟨declared, isDeclared, -⟩ :=
        declared_of_source typed forwards isOther (beq_iff_eq.mp same)
      rw [nearer ancestor isBefore] at isDeclared
      cases isDeclared

/-! ## Steps from a context -/

/-- The node is of one of the types of a context, if the context has types. -/
def InContext (graph : Graph) (context : Option (List TypeId)) (id : NodeId) : Prop :=
  ∀ types node, context = some types → graph.node? id = some node → node.type ∈ types

theorem reachable_of_inContext (within : InContext graph context id) {node : Node}
    (found : graph.node? id = some node) {candidate : Candidate}
    (below : ∀ source, candidate.source = some source → graph.isSubtype node.type source = true) :
    reachable graph context candidate = true := by
  unfold reachable
  split
  · rename_i types source isSource
    exact List.any_eq_true.mpr ⟨node.type, within types node rfl found, below source isSource⟩
  · rfl

variable (sound : graph.Sound) (hidesNothing : graph.HidesNothing)
include sound

/-- What a node has a value for is a candidate of a step from it. -/
theorem candidate_forwards (within : InContext graph context id) (forwards : step.reverse = false)
    {node : Node} {declared : Property} {held : Value} (found : graph.node? id = some node)
    (declares : graph.DeclaresAs step.name declared)
    (admitted : needNode = true → declared.isNode = true)
    (isValue : node.value? declared.id = some held) :
    (⟨some declared.owner, declared.id, declared.dataType⟩ : Candidate) ∈
      step.candidates graph needNode context := by
  refine (mem_candidates_iff _).mpr ⟨declared, declares, admitted,
    follow?_forwards forwards declared, reachable_of_inContext within found ?_⟩
  intro source isSource
  cases isSource
  exact (sound.offers declares found isValue).1

/-- What a node is held under is a candidate of a step back from it. -/
theorem candidate_backwards (within : InContext graph context id) (backwards : step.reverse = true)
    {source : NodeId} {declared : Property} {held : Value}
    (declares : graph.DeclaresAs step.name declared) (isNode : declared.isNode = true)
    (isValue : graph.valueAt? source declared.id = some held) (member : .node id ∈ held.items) :
    ∃ node, graph.node? id = some node ∧ ∃ base,
      (⟨base, declared.id, .node (some declared.owner)⟩ : Candidate) ∈
        step.candidates graph needNode context := by
  obtain ⟨base, isType⟩ := declared.isNode_iff.mp isNode
  obtain ⟨own, isOwn, below⟩ := sound.admits declares isType isValue member
  obtain ⟨node, found, rfl⟩ := (typeOf?_eq_some_iff id own).mp isOwn
  exact ⟨node, found, base, (mem_candidates_iff _).mpr ⟨declared, declares, fun _ => isNode,
    (follow?_backwards_eq_some_iff backwards declared _).mpr ⟨base, isType, rfl⟩,
    reachable_of_inContext within found below⟩⟩

theorem inContext_of_target {candidates : List Candidate} {candidate : Candidate}
    (member : candidate ∈ candidates) {base : Option TypeId}
    (isTarget : candidate.target = .node base) {target : NodeId}
    (admits : graph.AdmitsNode base target) :
    InContext graph (nextContext graph candidates) target := by
  intro types node isContext found
  unfold nextContext at isContext
  split at isContext
  · cases isContext
  rename_i typed
  cases isContext
  obtain ⟨own, isOwn, below⟩ := admits
  rw [typeOf?_of_node? found] at isOwn
  cases isOwn
  cases base with
  | none => exact absurd (List.any_eq_true.mpr ⟨candidate, member, by simp [isTarget]⟩) typed
  | some base =>
      refine List.mem_flatMap.mpr ⟨candidate, member, ?_⟩
      rw [isTarget]
      exact (sound.listed.schema.mem_subtypes base node.type).mpr
        ⟨sound.listed.type_lt found, below base rfl⟩

/-- The context narrows to types that cover what the step leads to. -/
theorem inContext_next (within : InContext graph context id) {target : NodeId}
    (reads : step.Reads graph true id (.node target)) :
    InContext graph (nextContext graph (step.candidates graph true context)) target := by
  cases direction : step.reverse with
  | true =>
      simp only [Reads, direction, if_true] at reads
      obtain ⟨source, declared, held, same, declares, isNode, isValue, member⟩ := reads
      cases same
      obtain ⟨-, -, base, isCandidate⟩ :=
        candidate_backwards sound within direction declares isNode isValue member
      obtain ⟨holder, found, isValue⟩ := Option.bind_eq_some_iff.mp isValue
      refine inContext_of_target sound isCandidate rfl
        ⟨holder.type, typeOf?_of_node? found, fun owner isOwner => ?_⟩
      cases isOwner
      exact (sound.offers declares found isValue).1
  | false =>
      simp only [Reads, direction, Bool.false_eq_true, if_false] at reads
      obtain ⟨node, declared, held, found, isProperty, admitted, isValue, member⟩ := reads
      have declares := declaresAs_of_findProperty? isProperty
      obtain ⟨base, isType⟩ := declared.isNode_iff.mp (admitted trivial)
      exact inContext_of_target sound
        (candidate_forwards sound within direction found declares (fun _ => admitted trivial)
          isValue) isType
        (sound.admits declares isType ((valueAt?_of_node? found declared.id).trans isValue) member)

include hidesNothing

/-- Taken naively, a step reads what its candidates read. -/
theorem reads_iff (within : InContext graph context id) :
    step.Reads graph needNode id value ↔
      ∃ node, graph.node? id = some node ∧
        ∃ candidate ∈ step.candidates graph needNode context,
          step.ReadsAlong candidate.property node value := by
  cases direction : step.reverse with
  | true =>
      simp only [Reads, ReadsAlong, direction, if_true]
      constructor
      · intro given
        obtain ⟨source, declared, held, rfl, declares, isNode, isValue, member⟩ := given
        obtain ⟨node, found, base, isCandidate⟩ :=
          candidate_backwards sound within direction declares isNode isValue member
        refine ⟨node, found, _, isCandidate, source, ?_, rfl⟩
        exact (sound.mem_referrersBy_iff declares isNode found source).mpr ⟨held, isValue, member⟩
      · intro given
        obtain ⟨node, found, candidate, isCandidate, source, refers, rfl⟩ := given
        obtain ⟨declared, declares, -, followed, -⟩ := (mem_candidates_iff candidate).mp isCandidate
        obtain ⟨base, isType, rfl⟩ :=
          (follow?_backwards_eq_some_iff direction declared _).mp followed
        have isNode := declared.isNode_iff.mpr ⟨base, isType⟩
        obtain ⟨held, isValue, member⟩ :=
          (sound.mem_referrersBy_iff declares isNode found source).mp refers
        exact ⟨source, declared, held, rfl, declares, isNode, isValue, member⟩
  | false =>
      simp only [Reads, ReadsAlong, direction, Bool.false_eq_true, if_false]
      constructor
      · intro given
        obtain ⟨node, declared, held, found, isProperty, admitted, isValue, member⟩ := given
        have declares := declaresAs_of_findProperty? isProperty
        exact ⟨node, found, _, candidate_forwards sound within direction found declares admitted
          isValue, held, isValue, member⟩
      · intro given
        obtain ⟨node, found, candidate, isCandidate, held, isValue, member⟩ := given
        obtain ⟨declared, declares, admitted, followed, -⟩ :=
          (mem_candidates_iff candidate).mp isCandidate
        rw [follow?_forwards direction, Option.some.injEq] at followed
        subst followed
        exact ⟨node, declared, held, found,
          sound.findProperty?_eq declares hidesNothing found isValue, admitted, isValue, member⟩

/-- A candidate is looked at on the nodes that it reads something from. -/
theorem mem_propertiesFor_of_readsAlong {node : Node} (found : graph.node? id = some node)
    {candidate : Candidate} (isCandidate : candidate ∈ step.candidates graph needNode context)
    (reads : step.ReadsAlong candidate.property node value) :
    candidate.property ∈
      (step.bind (step.candidates graph needNode context)).propertiesFor graph node.type := by
  obtain ⟨declared, declares, -, followed, -⟩ := (mem_candidates_iff candidate).mp isCandidate
  cases direction : step.reverse with
  | true =>
      simp only [ReadsAlong, direction, if_true] at reads
      obtain ⟨base, isType, rfl⟩ := (follow?_backwards_eq_some_iff direction declared _).mp followed
      have isNode := declared.isNode_iff.mpr ⟨base, isType⟩
      obtain ⟨source, refers, -⟩ := reads
      obtain ⟨held, isValue, member⟩ :=
        (sound.mem_referrersBy_iff declares isNode found source).mp refers
      obtain ⟨own, isOwn, below⟩ := sound.admits declares isType isValue member
      rw [typeOf?_of_node? found] at isOwn
      cases isOwn
      refine mem_propertiesFor_backwards direction isCandidate ?_
      cases base with
      | none => rfl
      | some base => exact below base rfl
  | false =>
      simp only [ReadsAlong, direction, Bool.false_eq_true, if_false] at reads
      rw [follow?_forwards direction, Option.some.injEq] at followed
      subst followed
      obtain ⟨held, isValue, -⟩ := reads
      exact mem_propertiesFor_forwards sound.listed.schema direction isCandidate rfl rfl
        (sound.offers declares found isValue).1
        (sound.findProperty?_eq declares hidesNothing found isValue)

/-- A resolved step reads what the naive one reads. -/
theorem mem_valuesAt_iff (within : InContext graph context id) :
    (∃ type, (value, type) ∈
      (step.bind (step.candidates graph needNode context)).valuesAt graph id) ↔
        step.Reads graph needNode id value := by
  rw [reads_iff sound hidesNothing within, BoundStep.valuesAt]
  cases found : graph.node? id with
  | none => simp
  | some node =>
      constructor
      · intro given
        obtain ⟨type, member⟩ := given
        obtain ⟨property, isLooked, member⟩ := List.mem_flatMap.mp member
        obtain ⟨candidate, isCandidate, rfl⟩ := mem_of_mem_propertiesFor isLooked
        exact ⟨node, rfl, candidate, isCandidate,
          (mem_valuesOf_iff (step.bind _) rfl node candidate.property).mp ⟨type, member⟩⟩
      · intro given
        obtain ⟨other, same, candidate, isCandidate, reads⟩ := given
        cases same
        obtain ⟨type, member⟩ :=
          (mem_valuesOf_iff (step.bind _) rfl node candidate.property).mpr reads
        exact ⟨type, List.mem_flatMap.mpr ⟨_, mem_propertiesFor_of_readsAlong sound hidesNothing
          found isCandidate reads, member⟩⟩

theorem mem_flatMap_valuesAt_iff {nodes : List NodeId}
    (within : ∀ id ∈ nodes, InContext graph context id) (value : Value) :
    (∃ type, (value, type) ∈
      nodes.flatMap ((step.bind (step.candidates graph needNode context)).valuesAt graph)) ↔
        ∃ id ∈ nodes, step.Reads graph needNode id value := by
  constructor
  · intro given
    obtain ⟨type, member⟩ := given
    obtain ⟨id, isStart, member⟩ := List.mem_flatMap.mp member
    exact ⟨id, isStart, (mem_valuesAt_iff sound hidesNothing (within id isStart)).mp ⟨type, member⟩⟩
  · intro given
    obtain ⟨id, isStart, reads⟩ := given
    obtain ⟨type, member⟩ := (mem_valuesAt_iff sound hidesNothing (within id isStart)).mpr reads
    exact ⟨type, List.mem_flatMap.mpr ⟨id, isStart, member⟩⟩

end PathStep

namespace BoundPath

open PathStep

variable {graph : Graph} {needNode : Bool} {context : Option (List TypeId)}
  {path rest : List PathStep} {step : PathStep} {steps : List BoundStep}
  {targets : List DataType} {fault : Fault} {id : NodeId} {value : Value}

/-! ## Walks -/

/-- What a path leads to, one naive step after the other; all but the last one lead to nodes. -/
def Walks (graph : Graph) (needNode : Bool) : List PathStep → NodeId → Value → Prop
  | [], _, _ => False
  | [step], id, value => step.Reads graph needNode id value
  | step :: next :: rest, id, value =>
      ∃ middle, step.Reads graph true id (.node middle) ∧
        Walks graph needNode (next :: rest) middle value

theorem walks_cons (notLast : rest ≠ []) :
    Walks graph needNode (step :: rest) id value ↔
      ∃ middle, step.Reads graph true id (.node middle) ∧
        Walks graph needNode rest middle value := by
  cases rest with
  | nil => exact absurd rfl notLast
  | cons next rest => rw [Walks]

theorem valuesFrom_cons (bound : BoundStep) (notLast : steps ≠ []) (nodes : List NodeId) :
    valuesFrom graph (bound :: steps) nodes =
      valuesFrom graph steps (nodesAmong (nodes.flatMap (bound.valuesAt graph))) := by
  cases steps with
  | nil => exact absurd rfl notLast
  | cons next rest => rw [valuesFrom]

theorem mem_nodesAmong_iff (values : List (Value × DataType)) (id : NodeId) :
    id ∈ nodesAmong values ↔ ∃ type, (.node id, type) ∈ values := by
  rw [nodesAmong, mem_firstOccurrences, List.mem_filterMap]
  constructor
  · intro given
    obtain ⟨⟨value, type⟩, member, isNode⟩ := given
    cases value <;> simp_all [Value.node?]
    exact ⟨type, member⟩
  · intro given
    obtain ⟨type, member⟩ := given
    exact ⟨_, member, rfl⟩

/-! ## Resolution -/

/-- The first step has candidates, and the others are resolved from where they lead. -/
theorem exists_of_resolveFrom_cons_eq_ok
    (resolved : resolveFrom graph needNode context (step :: rest) = .ok (steps, targets)) :
    ∃ others leads, steps =
        step.bind (step.candidates graph (needNode || !rest.isEmpty) context) :: others ∧
      resolveFrom graph needNode
        (nextContext graph (step.candidates graph (needNode || !rest.isEmpty) context)) rest =
          .ok (others, leads) := by
  rw [resolveFrom] at resolved
  simp only at resolved
  split at resolved
  · cases resolved
  · obtain ⟨⟨others, leads⟩, others_eq, same⟩ := exists_of_bind_eq_ok resolved
    cases same
    exact ⟨others, leads, rfl, others_eq⟩

theorem or_of_resolveFrom_cons_eq_error
    (failed : resolveFrom graph needNode context (step :: rest) = .error fault) :
    (step.candidates graph (needNode || !rest.isEmpty) context = [] ∧
        fault = .query (.unresolvedStep step)) ∨
      (step.candidates graph (needNode || !rest.isEmpty) context ≠ [] ∧
        resolveFrom graph needNode
          (nextContext graph (step.candidates graph (needNode || !rest.isEmpty) context)) rest =
            .error fault) := by
  rw [resolveFrom] at failed
  simp only at failed
  split at failed
  · rename_i none
    cases failed
    exact .inl ⟨List.isEmpty_iff.mp none, rfl⟩
  · rename_i some
    exact .inr ⟨fun none => some (List.isEmpty_iff.mpr none),
      error_of_bind_eq_error failed fun _ => ⟨_, rfl⟩⟩

theorem steps_ne_nil (resolved : resolveFrom graph needNode context path = .ok (steps, targets))
    (notEmpty : path ≠ []) : steps ≠ [] := by
  cases path with
  | nil => exact absurd rfl notEmpty
  | cons step rest =>
      obtain ⟨others, -, rfl, -⟩ := exists_of_resolveFrom_cons_eq_ok resolved
      exact List.cons_ne_nil _ _

section Sound

variable (sound : graph.Sound) (hidesNothing : graph.HidesNothing)
include sound hidesNothing

/-- A resolved path leads from nodes of its context to what the naive walk leads to. -/
theorem mem_valuesFrom_iff {nodes : List NodeId}
    (resolved : resolveFrom graph needNode context path = .ok (steps, targets))
    (within : ∀ id ∈ nodes, InContext graph context id) (value : Value) :
    (∃ type, (value, type) ∈ valuesFrom graph steps nodes) ↔
      ∃ id ∈ nodes, Walks graph needNode path id value := by
  induction path generalizing context nodes steps targets with
  | nil =>
      cases resolved
      simp [valuesFrom, Walks]
  | cons step rest inductionHypothesis =>
      obtain ⟨others, leads, rfl, resolvedRest⟩ := exists_of_resolveFrom_cons_eq_ok resolved
      cases rest with
      | nil =>
          have last : (needNode || !([] : List PathStep).isEmpty) = needNode := Bool.or_false _
          rw [last]
          cases resolvedRest
          exact mem_flatMap_valuesAt_iff sound hidesNothing within value
      | cons next rest =>
          have notLast : (needNode || !(next :: rest).isEmpty) = true := Bool.or_true _
          rw [notLast] at resolvedRest ⊢
          have middles (middle : NodeId) :
              middle ∈ nodesAmong (nodes.flatMap
                ((step.bind (step.candidates graph true context)).valuesAt graph)) ↔
              ∃ id ∈ nodes, step.Reads graph true id (.node middle) :=
            (mem_nodesAmong_iff _ middle).trans
              (mem_flatMap_valuesAt_iff sound hidesNothing within (.node middle))
          rw [valuesFrom_cons _ (steps_ne_nil resolvedRest (List.cons_ne_nil _ _)),
            inductionHypothesis resolvedRest ?_]
          · constructor
            · intro given
              obtain ⟨middle, isMiddle, walks⟩ := given
              obtain ⟨id, isStart, reads⟩ := (middles middle).mp isMiddle
              exact ⟨id, isStart, middle, reads, walks⟩
            · intro given
              obtain ⟨id, isStart, middle, reads, walks⟩ := given
              exact ⟨middle, (middles middle).mpr ⟨id, isStart, reads⟩, walks⟩
          · intro middle isMiddle
            obtain ⟨id, isStart, reads⟩ := (middles middle).mp isMiddle
            exact inContext_next sound (within id isStart) reads

/-- A path that is not resolved has a first step without candidates, and the naive walk leads
from no node of the context beyond it. -/
theorem exists_of_resolveFrom_eq_error
    (failed : resolveFrom graph needNode context path = .error fault) :
    ∃ before step after, path = before ++ step :: after ∧
      fault = .query (.unresolvedStep step) ∧
      (∃ resolved, resolveFrom graph true context before = .ok resolved) ∧
      ∀ id value, InContext graph context id →
        ¬ Walks graph (needNode || !after.isEmpty) (before ++ [step]) id value := by
  induction path generalizing context with
  | nil => cases failed
  | cons step rest inductionHypothesis =>
      obtain ⟨noCandidates, rfl⟩ | ⟨candidates, failed⟩ := or_of_resolveFrom_cons_eq_error failed
      · refine ⟨[], step, rest, rfl, rfl, ⟨_, rfl⟩, fun id value within walks => ?_⟩
        obtain ⟨-, -, candidate, member, -⟩ := (reads_iff sound hidesNothing within).mp walks
        rw [noCandidates] at member
        cases member
      · obtain ⟨before, stopped, after, rfl, rfl, resolved, nowhere⟩ := inductionHypothesis failed
        have notLast : (needNode || !(before ++ stopped :: after).isEmpty) = true := by simp
        rw [notLast] at candidates resolved nowhere
        refine ⟨step :: before, stopped, after, rfl, rfl, ?_, ?_⟩
        · obtain ⟨⟨others, leads⟩, resolved⟩ := resolved
          rw [resolveFrom]
          simp only [Bool.true_or]
          rw [if_neg (fun none => candidates (List.isEmpty_iff.mp none)), resolved]
          exact ⟨_, rfl⟩
        · intro id value within walks
          obtain ⟨middle, reads, walks⟩ := (walks_cons (by simp)).mp walks
          exact nowhere middle value (inContext_next sound within reads) walks

end Sound

end BoundPath

namespace Repository

open BoundPath

variable {repository : Repository}

theorem inContext_none (graph : Graph) (id : NodeId) : PathStep.InContext graph none id := by
  intro types node isContext
  cases isContext

/-- A resolved path has the values of the naive walk; and where a path is not resolved, the
naive walk leads from no node beyond the first step that has no candidates. -/
theorem paths_walk (reachable : SteadilyReachable repository)
    (hidesNothing : repository.graph.HidesNothing) (path : List PathStep) (needNode : Bool) :
    (∀ resolved, resolve repository.graph path needNode = .ok resolved → ∀ id value,
      (∃ type, (value, type) ∈ resolved.typedValues repository.graph id) ↔
        Walks repository.graph needNode path id value) ∧
    ∀ fault, resolve repository.graph path needNode = .error fault →
      (path = [] ∧ fault = .query .emptyPath) ∨
      ∃ before step after, path = before ++ step :: after ∧
        fault = .query (.unresolvedStep step) ∧
        (before = [] ∨ ∃ resolved, resolve repository.graph before true = .ok resolved) ∧
        ∀ id value, ¬ Walks repository.graph (needNode || !after.isEmpty) (before ++ [step])
          id value := by
  have sound := sound_of_steadilyReachable reachable
  constructor
  · intro resolved isResolved id value
    rw [resolve] at isResolved
    split at isResolved
    · cases isResolved
    obtain ⟨⟨steps, targets⟩, areSteps, same⟩ := exists_of_bind_eq_ok isResolved
    cases same
    rw [typedValues, mem_valuesFrom_iff sound hidesNothing areSteps fun id _ =>
      inContext_none repository.graph id]
    simp
  · intro fault failed
    rw [resolve] at failed
    split at failed
    · rename_i isEmpty
      cases failed
      exact .inl ⟨List.isEmpty_iff.mp isEmpty, rfl⟩
    · obtain ⟨before, step, after, whole, isFault, resolved, nowhere⟩ :=
        exists_of_resolveFrom_eq_error sound hidesNothing
          (error_of_bind_eq_error failed fun _ => ⟨_, rfl⟩)
      refine .inr ⟨before, step, after, whole, isFault, ?_, fun id value =>
        nowhere id value (inContext_none repository.graph id)⟩
      cases before with
      | nil => exact .inl rfl
      | cons first others =>
          obtain ⟨⟨steps, targets⟩, resolved⟩ := resolved
          refine .inr ⟨⟨steps, sharedType targets⟩, ?_⟩
          rw [resolve, if_neg (by simp), resolved]
          rfl

/-- Tasks with a next task, and bugs that declare the next task anew, as a list.  A task has a bug
for its next one, and the bug a task. -/
def tasksAndBugs : List Operation :=
  [.addNodeType "Task" ⟨none, "", [("next", .text "Task"), ("note", .text "string")]⟩,
    .addNodeType "Bug" ⟨some "Task", "", [("next", .object [("type", .text "Task"),
      ("list", .boolean true)])]⟩,
    .mutate (.addNode ⟨0⟩ "a"), .mutate (.addNode ⟨1⟩ "b"), .mutate (.addNode ⟨0⟩ "c"),
    .mutate (.setPropertyNamed ⟨0⟩ "next" (.node ⟨1⟩)),
    .mutate (.setPropertyNamed ⟨1⟩ "next" (.list [.node ⟨2⟩]))]

theorem steadilyReachable_tasksAndBugs :
    SteadilyReachable (Operation.run tasksAndBugs .empty) :=
  Reached.empty.run (by decide)

/-- From the first task, two steps forwards lead to the second one; and from nowhere a step back
along the notes leads further, as they are not nodes. -/
theorem paths_walk_tasksAndBugs :
    Walks (Operation.run tasksAndBugs .empty).graph true [⟨false, "next"⟩, ⟨false, "next"⟩] ⟨0⟩
        (.node ⟨2⟩) ∧
      ∀ id value, ¬ Walks (Operation.run tasksAndBugs .empty).graph false
        [⟨false, "next"⟩, ⟨true, "note"⟩] id value := by
  have hidesNothing : (Operation.run tasksAndBugs .empty).graph.HidesNothing := by
    unfold Graph.HidesNothing
    decide
  constructor
  · have leads : ∃ resolved, resolve (Operation.run tasksAndBugs .empty).graph
        [⟨false, "next"⟩, ⟨false, "next"⟩] true = .ok resolved ∧
          resolved.nodes (Operation.run tasksAndBugs .empty).graph ⟨0⟩ = [⟨2⟩] :=
      ⟨_, rfl, by decide⟩
    obtain ⟨resolved, isResolved, nodes⟩ := leads
    have member : (⟨2⟩ : NodeId) ∈
        resolved.nodes (Operation.run tasksAndBugs .empty).graph ⟨0⟩ := by
      rw [nodes]
      exact List.mem_singleton_self _
    exact ((paths_walk steadilyReachable_tasksAndBugs hidesNothing _ true).1 resolved isResolved
      ⟨0⟩ (.node ⟨2⟩)).mp ((mem_nodesAmong_iff _ _).mp member)
  · have fails : resolve (Operation.run tasksAndBugs .empty).graph
        [⟨false, "next"⟩, ⟨true, "note"⟩] false =
          .error (.query (.unresolvedStep ⟨true, "note"⟩)) := rfl
    obtain ⟨isEmpty, -⟩ | ⟨before, step, after, whole, isFault, -, nowhere⟩ :=
      (paths_walk steadilyReachable_tasksAndBugs hidesNothing _ false).2 _ fails
    · cases isEmpty
    · cases isFault
      rcases before with _ | ⟨first, _ | ⟨second, others⟩⟩
      · simp at whole
      · cases whole
        exact nowhere
      · simp at whole

end Repository

end LifecycleGraph
