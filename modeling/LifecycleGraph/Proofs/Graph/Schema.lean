import Mathlib.Data.List.Perm.Subperm
import LifecycleGraph.Proofs.Collection
import LifecycleGraph.Graph.Basic

/-!
# Declared types

Types and properties carry the handles that lead to them, names lead to types, and
every base is declared.  The base chain of a type then has no more members than there are
types, and the types that are declared later do not change it.
-/

set_option autoImplicit false

namespace LifecycleGraph

namespace Graph

/-- Types and properties carry their handles, bases are declared types, and types are found
by their names. -/
structure Typed (graph : Graph) : Prop where
  stamped : ∀ {id type}, graph.type? id = some type → type.id = id ∧ type.properties.owner = id
  entered : ∀ {id type slot property}, graph.type? id = some type →
    type.properties.at? slot = some property → property.id = ⟨id, slot⟩
  based : ∀ {id base}, graph.base? id = some base → base.index < graph.types.size
  keyed : graph.types.Keyed NodeType.name

/-- The properties of every type are found by their names. -/
def Catalogued (graph : Graph) : Prop :=
  ∀ id type, graph.type? id = some type → type.properties.Keyed Property.name

variable {graph : Graph}

theorem lt_size_of_type? {id : TypeId} {type : NodeType} (found : graph.type? id = some type) :
    id.index < graph.types.size :=
  Roster.lt_size_of_at? found

theorem isSome_type?_iff (id : TypeId) :
    (graph.type? id).isSome = true ↔ id.index < graph.types.size :=
  graph.types.isSome_at?_iff id.index

theorem lt_size_of_typeId? {name : String} {id : TypeId} (found : graph.typeId? name = some id) :
    id.index < graph.types.size := by
  obtain ⟨slot, isSlot, rfl⟩ := Option.map_eq_some_iff.mp found
  exact Roster.lt_size_of_slotOf? isSlot

theorem Typed.of_types {old new : Graph} (typed : old.Typed) (same : new.types = old.types) :
    new.Typed where
  stamped := by
    intro id type found
    have old : old.type? id = some type := by rwa [type?, same] at found
    exact typed.stamped old
  entered := by
    intro id type slot property found
    have old : old.type? id = some type := by rwa [type?, same] at found
    exact typed.entered old
  based := by
    intro id base above
    have old : old.base? id = some base := by rwa [base?, type?, same] at above
    rw [same]
    exact typed.based old
  keyed := same ▸ typed.keyed

namespace Typed

/-- The name of a type leads back to the type. -/
theorem typeId?_eq (typed : graph.Typed) {id : TypeId} {type : NodeType}
    (found : graph.type? id = some type) : graph.typeId? type.name = some id := by
  rw [typeId?, typed.keyed.slotOf?_eq found]
  rfl

/-- A name leads to a type exactly if that type has the name. -/
theorem typeId?_eq_some_iff (typed : graph.Typed) {typeName : String} {id : TypeId} :
    graph.typeId? typeName = some id ↔
      ∃ type, graph.type? id = some type ∧ type.name = typeName := by
  constructor
  · intro given
    obtain ⟨slot, isSlot, rfl⟩ := Option.map_eq_some_iff.mp given
    obtain ⟨type, found⟩ := Option.isSome_iff_exists.mp
      ((graph.types.isSome_at?_iff slot).mpr (Roster.lt_size_of_slotOf? isSlot))
    exact ⟨type, found, typed.keyed.name_of_slotOf? isSlot found⟩
  · rintro ⟨type, found, rfl⟩
    exact typed.typeId?_eq found

theorem typeId?_typeName (typed : graph.Typed) {id : TypeId}
    (declared : id.index < graph.types.size) : graph.typeId? (graph.typeName id) = some id := by
  obtain ⟨type, found⟩ := Option.isSome_iff_exists.mp ((isSome_type?_iff id).mpr declared)
  rw [Graph.typeName, found]
  exact typed.typeId?_eq found

theorem typeName_of_typeId? (typed : graph.Typed) {typeName : String} {id : TypeId}
    (given : graph.typeId? typeName = some id) : graph.typeName id = typeName := by
  obtain ⟨type, found, isName⟩ := typed.typeId?_eq_some_iff.mp given
  rw [Graph.typeName, found]
  exact isName

/-! ## Properties -/

theorem property?_id (typed : graph.Typed) {id : TypeId} {type : NodeType} {property : Property}
    (found : graph.type? id = some type) (member : property ∈ type.properties.members) :
    graph.property? property.id = some property ∧ property.owner = id := by
  obtain ⟨slot, atSlot⟩ := (type.properties.mem_members_iff property).mp member
  have handle := typed.entered found atSlot
  refine ⟨?_, congrArg PropertyId.owner handle⟩
  rw [handle]
  simp only [property?, found, Option.bind_some, atSlot]

theorem mem_of_mem_withoutHidden {seen : List String} {properties : List Property}
    {property : Property} (member : property ∈ withoutHidden seen properties) :
    property ∈ properties := by
  induction properties generalizing seen with
  | nil => cases member
  | cons first rest inductionHypothesis =>
      rw [withoutHidden] at member
      split at member
      · exact List.mem_cons_of_mem _ (inductionHypothesis member)
      · rcases List.mem_cons.mp member with rfl | inRest
        · exact List.mem_cons_self ..
        · exact List.mem_cons_of_mem _ (inductionHypothesis inRest)

/-- A property that is visible on a type is found under its handle, and declared
by the type or one of its bases. -/
theorem property?_of_visible (typed : graph.Typed) {id : TypeId} {property : Property}
    (visible : property ∈ graph.visibleProperties id) :
    graph.property? property.id = some property ∧ graph.isSubtype id property.owner = true := by
  obtain ⟨ancestor, onChain, member⟩ := List.mem_flatMap.mp (mem_of_mem_withoutHidden visible)
  cases found : graph.type? ancestor with
  | none =>
      rw [found] at member
      cases member
  | some type =>
      rw [found] at member
      obtain ⟨isProperty, rfl⟩ := typed.property?_id found member
      exact ⟨isProperty, List.contains_iff_mem.mpr onChain⟩

theorem names_of_withoutHidden (seen : List String) (properties : List Property) :
    ((withoutHidden seen properties).map Property.name).Nodup ∧
      ∀ property ∈ withoutHidden seen properties, property.name ∉ seen := by
  induction properties generalizing seen with
  | nil => exact ⟨List.nodup_nil, fun property member => by cases member⟩
  | cons first rest inductionHypothesis =>
      rw [withoutHidden]
      split
      · exact inductionHypothesis seen
      · rename_i unseen
        obtain ⟨distinct, apart⟩ := inductionHypothesis (first.name :: seen)
        refine ⟨List.nodup_cons.mpr ⟨fun member => ?_, distinct⟩, fun property member => ?_⟩
        · obtain ⟨property, inRest, same⟩ := List.mem_map.mp member
          exact apart property inRest (same ▸ List.mem_cons_self ..)
        · rcases List.mem_cons.mp member with rfl | inRest
          · simpa using unseen
          · exact fun isSeen => apart property inRest (List.mem_cons_of_mem _ isSeen)

/-- The visible properties of a type have different handles. -/
theorem nodup_visible (typed : graph.Typed) (id : TypeId) :
    ((graph.visibleProperties id).map Property.id).Nodup := by
  have names : ((graph.visibleProperties id).map Property.name).Nodup :=
    (names_of_withoutHidden [] _).1
  refine List.Nodup.map_on (fun first isFirst second isSecond same => ?_) names.of_map
  have found := (typed.property?_of_visible isFirst).1
  rw [same, (typed.property?_of_visible isSecond).1] at found
  exact (Option.some.inj found).symm

/-! ## Subtypes -/

theorem handles (typed : graph.Typed) :
    graph.types.members.map NodeType.id = (List.range graph.types.size).map TypeId.mk := by
  refine List.ext_getElem? fun slot => ?_
  have member : graph.types.members[slot]? = graph.type? ⟨slot⟩ := rfl
  rw [List.getElem?_map, List.getElem?_map, member]
  by_cases below : slot < graph.types.size
  · obtain ⟨type, found⟩ := Option.isSome_iff_exists.mp ((isSome_type?_iff ⟨slot⟩).mpr below)
    rw [found, List.getElem?_range below]
    simp [(typed.stamped found).1]
  · have absent : graph.type? ⟨slot⟩ = none := by
      rw [← Option.not_isSome_iff_eq_none, isSome_type?_iff]
      exact below
    have beyond : graph.types.size ≤ slot := Nat.not_lt.mp below
    simp [absent, beyond]

theorem mem_handles (typed : graph.Typed) (id : TypeId) :
    id ∈ graph.types.members.map NodeType.id ↔ id.index < graph.types.size := by
  obtain ⟨index⟩ := id
  simp [typed.handles]

theorem mem_subtypes (typed : graph.Typed) (base id : TypeId) :
    id ∈ graph.subtypes base ↔ id.index < graph.types.size ∧ graph.isSubtype id base = true := by
  rw [subtypes, List.mem_filter, typed.mem_handles]

theorem nodup_handles (typed : graph.Typed) : (graph.types.members.map NodeType.id).Nodup := by
  rw [typed.handles]
  exact List.nodup_range.map fun _ _ same => congrArg TypeId.index same

theorem nodup_subtypes (typed : graph.Typed) (base : TypeId) : (graph.subtypes base).Nodup :=
  typed.nodup_handles.filter _

/-! ## Base chains -/

/-- Types that were seen, each once, are at most all types. -/
theorem length_seen_le {count : Nat} {seen : List TypeId} (nodup : seen.Nodup)
    (declared : ∀ id ∈ seen, id.index < count) : seen.length ≤ count := by
  have numbers : (seen.map TypeId.index).Nodup := by
    refine nodup.map fun a b same => ?_
    cases a
    cases b
    exact congrArg TypeId.mk same
  have within : seen.map TypeId.index ⊆ List.range count := by
    intro index member
    obtain ⟨id, isSeen, rfl⟩ := List.mem_map.mp member
    exact List.mem_range.mpr (declared id isSeen)
  have shorter := (List.subperm_of_subset numbers within).length_le
  simpa using shorter

/-- The base chain does not depend on the fuel when there is enough for all types
that were not seen yet. -/
theorem chainFrom_eq (typed : graph.Typed) (fuel enough : Nat) {seen : List TypeId} {id : TypeId}
    (nodup : seen.Nodup) (declared : ∀ id ∈ seen, id.index < graph.types.size)
    (here : id.index < graph.types.size) (bound : graph.types.size < fuel + seen.length)
    (bound' : graph.types.size < enough + seen.length) :
    graph.chainFrom fuel seen id = graph.chainFrom enough seen id := by
  have few := length_seen_le nodup declared
  -- The types seen so far are different and declared, so they leave less than the fuel.
  induction fuel generalizing seen id enough with
  | zero => omega
  | succ fuel inductionHypothesis =>
      cases enough with
      | zero => omega
      | succ enough =>
          unfold chainFrom
          split
          · rfl
          · rename_i unseen
            cases above : graph.base? id with
            | none => rfl
            | some base =>
                have more : (id :: seen).Nodup :=
                  List.nodup_cons.mpr ⟨by simpa using unseen, nodup⟩
                have known : ∀ other ∈ id :: seen, other.index < graph.types.size := by
                  intro other member
                  rcases List.mem_cons.mp member with rfl | isSeen
                  · exact here
                  · exact declared other isSeen
                have few' := length_seen_le more known
                simp only [List.length_cons] at few'
                simp only [List.cons.injEq, true_and]
                refine inductionHypothesis enough more known (typed.based above) ?_ ?_ few'
                · simp only [List.length_cons]
                  omega
                · simp only [List.length_cons]
                  omega

end Typed

/-- The second graph has all types of the first as they were. -/
structure Declares (old new : Graph) : Prop where
  size_le : old.types.size ≤ new.types.size
  kept : ∀ {id type}, old.type? id = some type → new.type? id = some type

namespace Declares

variable {old new : Graph}

theorem of_types (same : new.types = old.types) : old.Declares new where
  size_le := Nat.le_of_eq (congrArg Roster.size same.symm)
  kept := fun {id type} found => by
    unfold type? at *
    rwa [same]

theorem type?_of_lt (declares : old.Declares new) {id : TypeId}
    (below : id.index < old.types.size) : new.type? id = old.type? id := by
  obtain ⟨type, found⟩ := Option.isSome_iff_exists.mp ((isSome_type?_iff id).mpr below)
  rw [found, declares.kept found]

theorem property? (declares : old.Declares new) {id : PropertyId} {property : Property}
    (found : old.property? id = some property) : new.property? id = some property := by
  obtain ⟨type, isType, atSlot⟩ := Option.bind_eq_some_iff.mp found
  simp only [Graph.property?, declares.kept isType, Option.bind_some, atSlot]

theorem chainFrom (declares : old.Declares new) (typed : old.Typed) (fuel : Nat)
    (seen : List TypeId) {id : TypeId} (below : id.index < old.types.size) :
    new.chainFrom fuel seen id = old.chainFrom fuel seen id := by
  induction fuel generalizing seen id with
  | zero => rfl
  | succ fuel inductionHypothesis =>
      have bases : new.base? id = old.base? id := by
        unfold base?
        rw [declares.type?_of_lt below]
      unfold Graph.chainFrom
      rw [bases]
      split
      · rfl
      · cases above : old.base? id with
        | none => rfl
        | some base =>
            simp only [List.cons.injEq, true_and]
            exact inductionHypothesis (id :: seen) (typed.based above)

/-- New types do not change the base chains of the types that were declared. -/
theorem ancestors (declares : old.Declares new) (typed : old.Typed) {id : TypeId}
    (below : id.index < old.types.size) : new.ancestors id = old.ancestors id := by
  rw [Graph.ancestors, declares.chainFrom typed _ _ below]
  refine typed.chainFrom_eq _ _ List.nodup_nil (fun _ member => by cases member) below ?_ ?_
  · have := declares.size_le
    simp only [List.length_nil]
    omega
  · simp only [List.length_nil]
    omega

theorem isSubtype (declares : old.Declares new) (typed : old.Typed) {id : TypeId}
    (below : id.index < old.types.size) (base : TypeId) :
    new.isSubtype id base = old.isSubtype id base := by
  unfold Graph.isSubtype
  rw [declares.ancestors typed below]

end Declares

/-! ## What is read from the types alone -/

theorem type?_of_types {old new : Graph} (same : new.types = old.types) :
    new.type? = old.type? := by
  funext id
  rw [type?, type?, same]

theorem typeId?_of_types {old new : Graph} (same : new.types = old.types) :
    new.typeId? = old.typeId? := by
  funext name
  rw [typeId?, typeId?, same]

theorem property?_of_types {old new : Graph} (same : new.types = old.types) :
    new.property? = old.property? := by
  funext id
  rw [property?, property?, type?_of_types same]

theorem ancestors_of_types {old new : Graph} (same : new.types = old.types) :
    new.ancestors = old.ancestors := by
  have chains (fuel : Nat) (seen : List TypeId) (id : TypeId) :
      new.chainFrom fuel seen id = old.chainFrom fuel seen id := by
    induction fuel generalizing seen id with
    | zero => rfl
    | succ fuel inductionHypothesis =>
        have bases : new.base? id = old.base? id := by
          rw [base?, base?, type?_of_types same]
        simp only [chainFrom, bases, inductionHypothesis]
  funext id
  rw [ancestors, ancestors, chains, same]

theorem isSubtype_of_types {old new : Graph} (same : new.types = old.types) :
    new.isSubtype = old.isSubtype := by
  funext id base
  rw [isSubtype, isSubtype, ancestors_of_types same]

theorem subtypes_of_types {old new : Graph} (same : new.types = old.types) :
    new.subtypes = old.subtypes := by
  funext base
  rw [subtypes, subtypes, isSubtype_of_types same, same]

theorem visibleProperties_of_types {old new : Graph} (same : new.types = old.types) :
    new.visibleProperties = old.visibleProperties := by
  funext id
  simp only [visibleProperties, ancestors_of_types same, type?_of_types same]

end Graph

end LifecycleGraph
