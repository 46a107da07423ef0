import LifecycleGraph.Proofs.Graph.BaseChain
import LifecycleGraph.Proofs.Repository.Elementary
import LifecycleGraph.Proofs.Repository.Run

/-!
# Inheritance

A type has its bases, their bases and so on, each once, also where a base chain comes back.  Where
none does, subtypes are ordered by this.  A property is looked for along the base chain, and found
is the one of the name among those that are visible; a subtype hides properties of its bases, but
none of their names.
-/

set_option autoImplicit false

namespace LifecycleGraph

namespace Roster

variable {α ω : Type}

/-- In a keyed roster a name leads to the first member that has it. -/
theorem Keyed.find?_eq {nameOf : α → String} {roster : Roster α ω} (keyed : Keyed nameOf roster)
    (name : String) :
    roster.find? name = roster.members.find? fun member => nameOf member == name := by
  rw [find?, Roster.slotOf?_eq, ← keyed.named, List.findIdx?_map]
  exact (List.find?_eq_bind_findIdx?_getElem? ..).symm

end Roster

namespace Graph

variable {graph : Graph} {id other base : TypeId}

/-! ## Base chains -/

theorem chainFrom_spec (fuel : Nat) (seen : List TypeId) (id : TypeId) :
    (graph.chainFrom fuel seen id).Nodup ∧ ∀ member ∈ graph.chainFrom fuel seen id,
      member ∉ seen ∧ Relation.ReflTransGen graph.Derives id member := by
  induction fuel generalizing seen id with
  | zero => exact ⟨List.nodup_nil, fun _ member => by cases member⟩
  | succ fuel inductionHypothesis =>
      rw [chainFrom]
      split
      · exact ⟨List.nodup_nil, fun _ member => by cases member⟩
      · rename_i unseen
        have isNew : id ∉ seen := by simpa using unseen
        cases above : graph.base? id with
        | none =>
            refine ⟨List.nodup_singleton _, fun member isMember => ?_⟩
            obtain rfl := List.mem_singleton.mp isMember
            exact ⟨isNew, .refl⟩
        | some base =>
            obtain ⟨nodup, others⟩ := inductionHypothesis (id :: seen) base
            refine ⟨List.nodup_cons.mpr ⟨fun again => ?_, nodup⟩, fun member isMember => ?_⟩
            · exact (others id again).1 (List.mem_cons_self ..)
            · rcases List.mem_cons.mp isMember with rfl | inRest
              · exact ⟨isNew, .refl⟩
              · obtain ⟨unseen, reached⟩ := others member inRest
                exact ⟨fun isSeen => unseen (List.mem_cons_of_mem _ isSeen), .head above reached⟩

/-- With the types that were seen, a chain has the bases of all its types. -/
theorem Typed.chainFrom_closed (typed : graph.Typed) (fuel : Nat) {seen : List TypeId}
    (nodup : seen.Nodup) (declared : ∀ id ∈ seen, id.index < graph.types.size)
    (here : id.index < graph.types.size) (enough : graph.types.size < fuel + seen.length) :
    (id ∈ seen ∨ id ∈ graph.chainFrom fuel seen id) ∧
      ∀ member ∈ graph.chainFrom fuel seen id, ∀ base, graph.Derives member base →
        base ∈ seen ∨ base ∈ graph.chainFrom fuel seen id := by
  induction fuel generalizing seen id with
  | zero =>
      have few := length_seen_le nodup declared
      omega
  | succ fuel inductionHypothesis =>
      rw [chainFrom]
      split
      · rename_i isSeen
        exact ⟨.inl (by simpa using isSeen), fun _ member => by cases member⟩
      · rename_i unseen
        have isNew : id ∉ seen := by simpa using unseen
        cases above : graph.base? id with
        | none =>
            refine ⟨.inr (List.mem_singleton.mpr rfl), fun member isMember base derives => ?_⟩
            obtain rfl := List.mem_singleton.mp isMember
            cases above.symm.trans derives
        | some next =>
            have known : ∀ other ∈ id :: seen, other.index < graph.types.size :=
              List.forall_mem_cons.mpr ⟨here, declared⟩
            obtain ⟨found, closed⟩ := inductionHypothesis (List.nodup_cons.mpr ⟨isNew, nodup⟩)
              known (typed.based above) (by simp only [List.length_cons]; omega)
            -- What was seen before the next type is what was seen before, or this type.
            have shift {base : TypeId} (has : base ∈ id :: seen ∨
                base ∈ graph.chainFrom fuel (id :: seen) next) :
                base ∈ seen ∨ base ∈ id :: graph.chainFrom fuel (id :: seen) next := by
              rcases has with isSeen | onChain
              · rcases List.mem_cons.mp isSeen with rfl | before
                · exact .inr (List.mem_cons_self ..)
                · exact .inl before
              · exact .inr (List.mem_cons_of_mem _ onChain)
            refine ⟨.inr (List.mem_cons_self ..), fun member isMember base derives => ?_⟩
            rcases List.mem_cons.mp isMember with rfl | inRest
            · obtain rfl := Option.some.inj (above.symm.trans derives)
              exact shift found
            · exact shift (closed member inRest base derives)

theorem base?_eq_none (undeclared : ¬ id.index < graph.types.size) : graph.base? id = none := by
  have absent : graph.type? id = none := by
    rw [← Option.not_isSome_iff_eq_none, isSome_type?_iff]
    exact undeclared
  rw [base?, absent, Option.bind_none]

/-- The chain of a type has exactly the types that its bases lead to. -/
theorem Typed.mem_ancestors_iff (typed : graph.Typed) (id other : TypeId) :
    other ∈ graph.ancestors id ↔ Relation.ReflTransGen graph.Derives id other := by
  refine ⟨fun member => ((chainFrom_spec _ _ id).2 other member).2, fun reached => ?_⟩
  by_cases declared : id.index < graph.types.size
  · obtain ⟨found, closed⟩ := typed.chainFrom_closed (graph.types.size + 1) List.nodup_nil
      (fun _ member => by cases member) declared (by simp)
    induction reached with
    | refl => exact found.resolve_left List.not_mem_nil
    | tail _ derives inductionHypothesis =>
        exact (closed _ inductionHypothesis _ derives).resolve_left List.not_mem_nil
  · have alone := base?_eq_none declared
    rcases Relation.ReflTransGen.cases_head reached with rfl | ⟨base, derives, -⟩
    · rw [ancestors, chainFrom, alone]
      exact List.mem_singleton.mpr rfl
    · cases alone.symm.trans derives

theorem Typed.isSubtype_iff (typed : graph.Typed) (id base : TypeId) :
    graph.isSubtype id base = true ↔ Relation.ReflTransGen graph.Derives id base := by
  rw [isSubtype, List.contains_iff_mem, typed.mem_ancestors_iff]

/-- Where no base chain comes back, types that derive from each other are the same. -/
theorem Typed.isSubtype_antisymm (typed : graph.Typed) (acyclic : ∀ id, ¬ graph.Circular id)
    (below : graph.isSubtype id other = true) (above : graph.isSubtype other id = true) :
    id = other := by
  rw [typed.isSubtype_iff] at below above
  rcases Relation.reflTransGen_iff_eq_or_transGen.mp below with same | derives
  · exact same.symm
  · exact absurd (derives.trans_left above) (acyclic id)

/-! ## Properties along a base chain -/

/-- Without what is hidden, the first property of a name is the same. -/
theorem find?_withoutHidden (seen : List String) (properties : List Property) (name : String) :
    ((withoutHidden seen properties).find? fun property => property.name == name) =
      if name ∈ seen then none else properties.find? fun property => property.name == name := by
  induction properties generalizing seen with
  | nil => simp [withoutHidden]
  | cons first rest inductionHypothesis =>
      rw [withoutHidden]
      by_cases hidden : first.name ∈ seen
      · rw [if_pos (List.contains_iff_mem.mpr hidden), inductionHypothesis]
        refine ite_congr rfl (fun _ => rfl) fun visible => ?_
        have different : first.name ≠ name := fun same => visible (same ▸ hidden)
        rw [List.find?_cons_of_neg (by simpa using different)]
      · rw [if_neg (by simpa using hidden)]
        by_cases same : first.name = name
        · rw [List.find?_cons_of_pos (by simpa using same), if_neg (same ▸ hidden),
            List.find?_cons_of_pos (by simpa using same)]
        · rw [List.find?_cons_of_neg (by simpa using same), inductionHypothesis,
            List.find?_cons_of_neg (by simpa using same)]
          simp [Ne.symm same]

/-- The property of a name that is looked for along the base chain is the visible one. -/
theorem Catalogued.findProperty?_eq (catalogued : graph.Catalogued) (id : TypeId)
    (name : String) :
    graph.findProperty? id name =
      (graph.visibleProperties id).find? fun property => property.name == name := by
  rw [findProperty?, visibleProperties, find?_withoutHidden, if_neg List.not_mem_nil,
    List.find?_flatMap]
  refine congrArg (List.findSome? · _) (funext fun ancestor => ?_)
  cases found : graph.type? ancestor with
  | none => rfl
  | some type => exact (catalogued ancestor type found).find?_eq name

theorem Catalogued.isSome_findProperty?_iff (catalogued : graph.Catalogued) (id : TypeId)
    (name : String) :
    (graph.findProperty? id name).isSome = true ↔
      name ∈ (graph.visibleProperties id).map Property.name := by
  simp [catalogued.findProperty?_eq, List.find?_isSome]

/-- The property of a name is the only visible one of that name. -/
theorem Catalogued.findProperty?_eq_some_iff (catalogued : graph.Catalogued) (id : TypeId)
    (name : String) (property : Property) :
    graph.findProperty? id name = some property ↔
      property ∈ graph.visibleProperties id ∧ property.name = name := by
  have names : ((graph.visibleProperties id).map Property.name).Nodup :=
    (Typed.names_of_withoutHidden [] _).1
  rw [catalogued.findProperty?_eq]
  constructor
  · intro found
    exact ⟨List.mem_of_find?_eq_some found, by simpa using List.find?_some found⟩
  · rintro ⟨visible, rfl⟩
    have isSome : ((graph.visibleProperties id).find? fun other =>
        other.name == property.name).isSome = true :=
      List.find?_isSome.mpr ⟨property, visible, beq_self_eq_true _⟩
    obtain ⟨first, found⟩ := Option.isSome_iff_exists.mp isSome
    have same : first.name = property.name := by simpa using List.find?_some found
    rw [found, List.inj_on_of_nodup_map names (List.mem_of_find?_eq_some found) visible same]

/-- A name that is visible on a type is visible on each of its subtypes. -/
theorem Catalogued.visible_of_isSubtype (catalogued : graph.Catalogued) (typed : graph.Typed)
    (below : graph.isSubtype id base = true) {name : String}
    (visible : name ∈ (graph.visibleProperties base).map Property.name) :
    name ∈ (graph.visibleProperties id).map Property.name := by
  rw [← catalogued.isSome_findProperty?_iff, findProperty?, List.findSome?_isSome_iff] at visible ⊢
  obtain ⟨ancestor, above, declares⟩ := visible
  rw [typed.isSubtype_iff] at below
  rw [typed.mem_ancestors_iff] at above
  exact ⟨ancestor, (typed.mem_ancestors_iff id ancestor).mpr (below.trans above), declares⟩

/-! ## Repositories that are reached -/

theorem elementary_catalogued : Elementary Catalogued where
  touch _ _ _ catalogued := catalogued
  list _ catalogued := catalogued
  move _ _ _ _ _ catalogued := catalogued
  describe _ _ _ _ catalogued := catalogued
  enroll _ _ _ catalogued := catalogued
  discard _ catalogued := catalogued
  prune _ _ catalogued := catalogued
  grown _ catalogued := catalogued

theorem sustained_catalogued : Sustained fun graph => graph.Listed ∧ graph.Catalogued :=
  { elementary_catalogued.tended with
    revised := fun {_ _} both revised => ⟨maintained_listed.revised both.1 revised, both.2⟩ }

end Graph

namespace Repository

open Graph

variable {repository : Repository}

/-- The properties of every type that is reached are found by their names. -/
theorem catalogued_of_reached {allowed : Repository → Operation → Prop}
    (reached : Reached allowed repository) : repository.graph.Catalogued := by
  refine (reached.sustains sustained_catalogued (fun repository => ?_) fun both reshapes => ?_).2
  · exact ⟨(bare_clear repository).listed, fun _ _ found => by cases found⟩
  · exact ⟨both.1.reshape reshapes, reshapes.catalogued both.2⟩

theorem checkBases_eq_ok_iff (typed : repository.graph.Typed) :
    repository.checkBases = .ok () ↔ ∀ id, ¬ repository.graph.Circular id := by
  rw [← typed.cyclicType?_eq_none_iff, checkBases]
  cases repository.graph.cyclicType? <;> simp

/-- In every repository that is reached, also by operations that fail, the check of the bases
passes exactly if no type derives from itself.  A type has as ancestors, each once, the types that
its bases lead to, also where they come back.  Where they do not, the types are ordered by being
subtypes; the subtypes of a type are those that are declared, in this order.  The property that is
looked for by its name is the only visible one of that name, and a name that is visible on a type
is visible on each of its subtypes. -/
theorem inheritance_coherent {allowed : Repository → Operation → Prop}
    (reached : Reached allowed repository) :
    (repository.checkBases = .ok () ↔ ∀ id, ¬ repository.graph.Circular id) ∧
      (∀ id, (repository.graph.ancestors id).Nodup ∧ ∀ other,
        other ∈ repository.graph.ancestors id ↔
          Relation.ReflTransGen repository.graph.Derives id other) ∧
      (repository.checkBases = .ok () →
        (∀ id, repository.graph.isSubtype id id = true) ∧
        (∀ first second, repository.graph.isSubtype first second = true →
          repository.graph.isSubtype second first = true → first = second) ∧
        ∀ first second third, repository.graph.isSubtype first second = true →
          repository.graph.isSubtype second third = true →
            repository.graph.isSubtype first third = true) ∧
      (∀ base, repository.graph.subtypes base =
        ((List.range repository.graph.types.size).map TypeId.mk).filter fun id =>
          repository.graph.isSubtype id base) ∧
      (∀ id, ((repository.graph.visibleProperties id).map Property.name).Nodup ∧
        ∀ name property, repository.graph.findProperty? id name = some property ↔
          property ∈ repository.graph.visibleProperties id ∧ property.name = name) ∧
      ∀ base id name, repository.graph.isSubtype id base = true →
        name ∈ (repository.graph.visibleProperties base).map Property.name →
          name ∈ (repository.graph.visibleProperties id).map Property.name := by
  have typed : repository.graph.Typed := reached.listed.schema
  have catalogued := catalogued_of_reached reached
  have checked := checkBases_eq_ok_iff typed
  refine ⟨checked, fun id => ⟨(chainFrom_spec _ _ id).1, typed.mem_ancestors_iff id⟩,
    fun passes => ⟨fun id => ?_, fun _ _ => typed.isSubtype_antisymm (checked.mp passes), ?_⟩,
    fun base => ?_, fun id => ⟨(Typed.names_of_withoutHidden [] _).1,
      catalogued.findProperty?_eq_some_iff id⟩,
    fun _ _ _ below => catalogued.visible_of_isSubtype typed below⟩
  · exact (typed.isSubtype_iff id id).mpr .refl
  · intro first second third below above
    rw [typed.isSubtype_iff] at below above ⊢
    exact below.trans above
  · rw [subtypes, typed.handles]

/-- A type, and another one that derives from it and declares one of its properties anew. -/
def kindsOfIssues : Repository :=
  Operation.run
    [.addNodeType "Issue" ⟨none, "", [("title", .text "string"), ("size", .text "integer")]⟩,
      .addNodeType "Bug" ⟨some "Issue", "", [("size", .text "number")]⟩]
    .empty

/-- Two types that derive from each other, and a third one that derives from them. -/
def circledKinds : Repository :=
  Operation.run
    [.addNodeType "First" .plain, .addNodeType "Second" ⟨some "First", "", []⟩,
      .addNodeType "Below" ⟨some "Second", "", []⟩,
      .addNodeType "First" ⟨some "Second", "", []⟩]
    .empty

/-- The second type hides a property of the first one and has the other one.  The chain of the
third type below a circle has all three types. -/
theorem inheritance_coherent_kindsOfIssues :
    (∀ id, ¬ kindsOfIssues.graph.Circular id) ∧
      kindsOfIssues.graph.subtypes ⟨0⟩ = [⟨0⟩, ⟨1⟩] ∧
      (∃ size ∈ kindsOfIssues.graph.visibleProperties ⟨1⟩,
        size.name = "size" ∧ size.id = ⟨⟨1⟩, 0⟩) ∧
      "title" ∈ (kindsOfIssues.graph.visibleProperties ⟨1⟩).map Property.name ∧
      (∃ id, circledKinds.graph.Circular id) ∧
      circledKinds.graph.ancestors ⟨2⟩ = [⟨2⟩, ⟨1⟩, ⟨0⟩] ∧
      Relation.ReflTransGen circledKinds.graph.Derives ⟨2⟩ ⟨0⟩ := by
  have reached : Reachable kindsOfIssues := reachable_run _
  have circled : Reachable circledKinds := reachable_run _
  obtain ⟨passes, -, -, -, visible, inherited⟩ := inheritance_coherent reached
  obtain ⟨fails, ancestors, -⟩ := inheritance_coherent circled
  have isChecked : kindsOfIssues.checkBases = .ok () := eq_ok_of_toOption (by decide)
  have noAnswer : circledKinds.checkBases.toOption = none := by decide
  have refused : circledKinds.checkBases ≠ .ok () := by
    intro answers
    rw [answers] at noAnswer
    cases noAnswer
  have hides : ((kindsOfIssues.graph.findProperty? ⟨1⟩ "size").any fun size =>
      decide (size.id = ⟨⟨1⟩, 0⟩)) = true := by decide
  obtain ⟨size, isSize, own⟩ := (Option.any_eq_true _ _).mp hides
  obtain ⟨isVisible, named⟩ := ((visible ⟨1⟩).2 "size" size).mp isSize
  refine ⟨passes.mp isChecked, by decide, ⟨size, isVisible, named, by simpa using own⟩,
    inherited ⟨0⟩ ⟨1⟩ "title" (by decide) (by decide), ?_, by decide,
    ((ancestors ⟨2⟩).2 ⟨0⟩).mp (by decide)⟩
  by_contra none
  exact refused (fails.mpr (not_exists.mp none))

end Repository

end LifecycleGraph
