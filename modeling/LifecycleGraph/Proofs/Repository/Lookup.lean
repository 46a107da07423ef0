import LifecycleGraph.Proofs.Repository.Inheritance
import LifecycleGraph.Proofs.Repository.Naming

/-!
# What a name finds

A name is searched for among the nodes of a type and of the types that derive from it, or among
all nodes.  The answer is the only node that has the name there, that there is none, or that two
types have one each; nothing is chosen.  A type in front of the name takes the place of the one
that is asked for.  Where the same types are declared in another order, the same nodes are found.
-/

set_option autoImplicit false

namespace LifecycleGraph

namespace Graph

variable {graph one two : Graph} {asked : Option TypeId} {name : String} {types : List TypeId}

/-- The node is there and has the name, and its type is the one that is asked for or derives from
it. -/
def IsSought (graph : Graph) (asked : Option TypeId) (name : String) (id : NodeId) : Prop :=
  ∃ node, graph.node? id = some node ∧ node.name = name ∧
    ∀ base ∈ asked, Relation.ReflTransGen graph.Derives node.type base

/-- The answer is the only node that is sought, or that there is none, or that there are two; then
it names the types of two of them. -/
structure Resolves (graph : Graph) (asked : Option TypeId) (name : String)
    (answer : Except Fault (Option NodeId)) : Prop where
  found : ∀ id, answer = .ok (some id) ↔ ∀ other, graph.IsSought asked name other ↔ other = id
  missing : answer = .ok none ↔ ∀ id, ¬ graph.IsSought asked name id
  ambiguous : (∃ first second, answer = .error (.ambiguous name first second)) ↔
    ∃ id other, id ≠ other ∧ graph.IsSought asked name id ∧ graph.IsSought asked name other
  refused : ∀ fault, answer = .error fault → ∃ id other node twin,
    graph.IsSought asked name id ∧ graph.node? id = some node ∧
    graph.IsSought asked name other ∧ graph.node? other = some twin ∧ node.type ≠ twin.type ∧
    fault = .ambiguous name (graph.typeName node.type) (graph.typeName twin.type)

/-! ## Answers -/

theorem resolves_none (nobody : ∀ id, ¬ graph.IsSought asked name id) :
    graph.Resolves asked name (.ok none) where
  found id := iff_of_false (fun given => by cases given) fun only => nobody id ((only id).mpr rfl)
  missing := iff_of_true rfl nobody
  ambiguous := iff_of_false (fun ⟨_, _, refused⟩ => by cases refused)
    fun ⟨id, _, _, sought, _⟩ => nobody id sought
  refused _ refused := by cases refused

theorem resolves_some {id : NodeId} (only : ∀ other, graph.IsSought asked name other ↔ other = id) :
    graph.Resolves asked name (.ok (some id)) where
  found other := by
    constructor
    · rintro ⟨⟩
      exact only
    · intro also
      rw [(only other).mp ((also other).mpr rfl)]
  missing := iff_of_false (fun given => by cases given) fun none => none id ((only id).mpr rfl)
  ambiguous := iff_of_false (fun ⟨_, _, refused⟩ => by cases refused)
    fun ⟨first, second, different, isFirst, isSecond⟩ =>
      different (((only first).mp isFirst).trans ((only second).mp isSecond).symm)
  refused _ refused := by cases refused

theorem resolves_ambiguous {id other : NodeId} {node twin : Node}
    (sought : graph.IsSought asked name id) (found : graph.node? id = some node)
    (also : graph.IsSought asked name other) (foundTwin : graph.node? other = some twin)
    (different : node.type ≠ twin.type) :
    graph.Resolves asked name
      (.error (.ambiguous name (graph.typeName node.type) (graph.typeName twin.type))) := by
  have apart : id ≠ other := by
    rintro rfl
    exact different (congrArg Node.type (Option.some.inj (found.symm.trans foundTwin)))
  exact {
    found := fun third => iff_of_false (fun given => by cases given) fun only =>
      apart (((only id).mp sought).trans ((only other).mp also).symm)
    missing := iff_of_false (fun given => by cases given) fun none => none id sought
    ambiguous := iff_of_true ⟨_, _, rfl⟩ ⟨id, other, apart, sought, also⟩
    refused := fun fault refused => by
      cases refused
      exact ⟨id, other, node, twin, sought, found, also, foundTwin, different, rfl⟩ }

/-- A search among some types answers what is sought, if these are the types of all such nodes. -/
theorem Listed.resolves_uniqueAmong (listed : graph.Listed) (nodup : types.Nodup)
    (among : ∀ id, graph.IsSought asked name id ↔ ∃ type ∈ types, graph.IsCalled type name id) :
    graph.Resolves asked name (graph.uniqueAmong name types) := by
  by_cases exists_sought : ∃ id, graph.IsSought asked name id
  · obtain ⟨id, sought⟩ := exists_sought
    obtain ⟨type, isType, node, found, rfl, rfl⟩ := (among id).mp sought
    rcases uniqueAmong_of_found listed found nodup isType with
      ⟨answered, alone⟩ | ⟨first, second, one, another, different, isFirst, isSecond, refused⟩
    · rw [answered]
      refine resolves_some fun other => ⟨fun also => ?_, fun same => same ▸ sought⟩
      obtain ⟨type, member, called⟩ := (among other).mp also
      exact alone type other member called
    · rw [refused]
      have soughtOne := (among one).mpr ⟨first, isFirst⟩
      have soughtAnother := (among another).mpr ⟨second, isSecond⟩
      obtain ⟨-, node, found, rfl, -⟩ := isFirst
      obtain ⟨-, twin, foundTwin, rfl, -⟩ := isSecond
      exact resolves_ambiguous soughtOne found soughtAnother foundTwin different
  · have none (id : NodeId) : ¬ graph.IsSought asked name id := not_exists.mp exists_sought id
    have nobody : graph.namedAmong name types = [] := by
      refine List.eq_nil_iff_forall_not_mem.mpr fun ⟨type, id⟩ member => ?_
      have named := (mem_namedAmong_iff listed name types type id).mp member
      exact none id ((among id).mpr ⟨type, named⟩)
    rw [uniqueAmong, nobody]
    exact resolves_none none

/-- The types whose nodes are searched. -/
def searched (graph : Graph) : Option TypeId → List TypeId
  | some type => graph.subtypes type
  | none => graph.types.members.map NodeType.id

theorem Listed.resolves_searched (listed : graph.Listed) (asked : Option TypeId) (name : String) :
    graph.Resolves asked name (graph.uniqueAmong name (graph.searched asked)) := by
  have nodup : (graph.searched asked).Nodup := by
    cases asked with
    | none => exact listed.schema.nodup_handles
    | some type => exact listed.schema.nodup_subtypes type
  have member (type : TypeId) : type ∈ graph.searched asked ↔ type.index < graph.types.size ∧
      ∀ base ∈ asked, Relation.ReflTransGen graph.Derives type base := by
    cases asked with
    | none => simp [searched, listed.schema.mem_handles]
    | some base => simp [searched, listed.schema.mem_subtypes, listed.schema.isSubtype_iff]
  refine listed.resolves_uniqueAmong nodup fun id => ⟨?_, ?_⟩
  · rintro ⟨node, found, isName, below⟩
    exact ⟨node.type, (member _).mpr ⟨listed.type_lt found, below⟩, node, found, rfl, isName⟩
  · rintro ⟨type, isType, node, found, rfl, isName⟩
    exact ⟨node, found, isName, ((member _).mp isType).2⟩

/-! ## Texts -/

theorem nodeNamed?_eq (text : String) (asked : Option TypeId) :
    graph.nodeNamed? text asked =
      match Text.cutOnce? ':' text with
      | some (typeName, rest) =>
          match graph.typeId? typeName with
          | some type => graph.uniqueAmong rest (graph.searched (some type))
          | none => .error (.notFound .nodeType typeName)
      | none => graph.uniqueAmong text (graph.searched asked) := by
  rw [nodeNamed?]
  cases Text.cutOnce? ':' text <;> cases asked <;> rfl

/-! ## Types in another order -/

/-- The names of the types, each with the name of its base. -/
def lineage (graph : Graph) : List (String × Option String) :=
  graph.types.members.map fun type => (type.name, type.base.map graph.typeName)

/-- The second graph declares the types of the first one, in any order, and it has the nodes of
the first one. -/
structure Reorders (one two : Graph) : Prop where
  types : one.lineage.Perm two.lineage
  nodes : ∀ id, (one.node? id).map (fun node => (one.typeName node.type, node.name)) =
    (two.node? id).map fun node => (two.typeName node.type, node.name)

/-- The handles mean types of one name. -/
def Counterparts (one two : Graph) (type other : TypeId) : Prop :=
  ∃ typeName, one.typeId? typeName = some type ∧ two.typeId? typeName = some other

/-- What an answer comes to, whichever two types it tells. -/
def outcome : Except Fault (Option NodeId) → Except Fault (Option NodeId)
  | .ok found => .ok found
  | .error (.ambiguous name _ _) => .error (.ambiguous name "" "")
  | .error fault => .error fault

theorem Typed.mem_lineage_iff (typed : graph.Typed) (typeName : String) (base : Option String) :
    (typeName, base) ∈ graph.lineage ↔
      ∃ id, graph.typeId? typeName = some id ∧ (graph.base? id).map graph.typeName = base := by
  rw [lineage, List.mem_map]
  constructor
  · rintro ⟨type, member, same⟩
    obtain ⟨slot, found⟩ := (graph.types.mem_members_iff type).mp member
    obtain ⟨rfl, rfl⟩ := Prod.mk.inj same
    have isType : graph.type? ⟨slot⟩ = some type := found
    exact ⟨⟨slot⟩, typed.typeId?_eq isType, by rw [base?, isType, Option.bind_some]⟩
  · rintro ⟨id, given, rfl⟩
    obtain ⟨type, found, rfl⟩ := typed.typeId?_eq_some_iff.mp given
    exact ⟨type, (graph.types.mem_members_iff type).mpr ⟨id.index, found⟩,
      by rw [base?, found, Option.bind_some]⟩

namespace Reorders

variable {type other base : TypeId} {askedThere : Option TypeId}

theorem symm (reorders : one.Reorders two) : two.Reorders one :=
  ⟨reorders.types.symm, fun id => (reorders.nodes id).symm⟩

section Typed

variable (typed : one.Typed) (typedToo : two.Typed) (reorders : one.Reorders two)

include typed typedToo reorders

/-- A type that is declared in one order is declared in the other one, with the same base. -/
theorem exists_typeId? {typeName : String} (given : one.typeId? typeName = some type) :
    ∃ other, two.typeId? typeName = some other ∧
      (two.base? other).map two.typeName = (one.base? type).map one.typeName := by
  rw [← typedToo.mem_lineage_iff, ← reorders.types.mem_iff, typed.mem_lineage_iff]
  exact ⟨type, given, rfl⟩

theorem counterparts_of_derives (same : one.Counterparts two type other)
    (derives : one.Derives type base) :
    ∃ above, two.Derives other above ∧ one.Counterparts two base above := by
  obtain ⟨typeName, given, givenThere⟩ := same
  obtain ⟨found, isFound, bases⟩ := reorders.exists_typeId? typed typedToo given
  obtain rfl := Option.some.inj (givenThere.symm.trans isFound)
  have isBase : one.base? type = some base := derives
  rw [isBase, Option.map_some] at bases
  obtain ⟨above, isAbove, sameName⟩ := Option.map_eq_some_iff.mp bases
  exact ⟨above, isAbove, one.typeName base, typed.typeId?_typeName (typed.based isBase),
    sameName ▸ typedToo.typeId?_typeName (typedToo.based isAbove)⟩

theorem counterparts_of_reaches (same : one.Counterparts two type other)
    (reaches : Relation.ReflTransGen one.Derives type base) :
    ∃ above, Relation.ReflTransGen two.Derives other above ∧ one.Counterparts two base above := by
  induction reaches with
  | refl => exact ⟨other, .refl, same⟩
  | tail _ derives inductionHypothesis =>
      obtain ⟨middle, before, sameMiddle⟩ := inductionHypothesis
      obtain ⟨above, derivesThere, sameAbove⟩ :=
        reorders.counterparts_of_derives typed typedToo sameMiddle derives
      exact ⟨above, before.tail derivesThere, sameAbove⟩

omit typedToo reorders in
theorem unique_counterpart {first second : TypeId} (same : one.Counterparts two type first)
    (also : one.Counterparts two type second) : first = second := by
  obtain ⟨typeName, given, givenThere⟩ := same
  obtain ⟨otherName, givenToo, givenThereToo⟩ := also
  obtain rfl : typeName = otherName :=
    (typed.typeName_of_typeId? given).symm.trans (typed.typeName_of_typeId? givenToo)
  exact Option.some.inj (givenThere.symm.trans givenThereToo)

end Typed

variable (listed : one.Listed) (listedToo : two.Listed) (reorders : one.Reorders two)

include listed listedToo reorders

theorem isSought (alike : Option.Rel (one.Counterparts two) asked askedThere) {id : NodeId}
    (sought : one.IsSought asked name id) : two.IsSought askedThere name id := by
  obtain ⟨node, found, rfl, below⟩ := sought
  have nodes := reorders.nodes id
  rw [found, Option.map_some] at nodes
  obtain ⟨twin, foundTwin, same⟩ := Option.map_eq_some_iff.mp nodes.symm
  obtain ⟨sameType, sameName⟩ := Prod.mk.inj same
  refine ⟨twin, foundTwin, sameName, fun there isAsked => ?_⟩
  cases alike with
  | none => cases isAsked
  | some counterparts =>
      obtain rfl := Option.mem_some_iff.mp isAsked
      have types : one.Counterparts two node.type twin.type :=
        ⟨one.typeName node.type, listed.schema.typeId?_typeName (listed.type_lt found),
          sameType ▸ listedToo.schema.typeId?_typeName (listedToo.type_lt foundTwin)⟩
      obtain ⟨above, reaches, isAbove⟩ := reorders.counterparts_of_reaches listed.schema
        listedToo.schema types (below _ rfl)
      exact unique_counterpart listed.schema isAbove counterparts ▸ reaches

theorem isSought_iff (alike : Option.Rel (one.Counterparts two) asked askedThere) (id : NodeId) :
    one.IsSought asked name id ↔ two.IsSought askedThere name id := by
  refine ⟨reorders.isSought listed listedToo alike,
    reorders.symm.isSought listedToo listed ?_⟩
  cases alike with
  | none => exact .none
  | some counterparts =>
      obtain ⟨typeName, given, givenThere⟩ := counterparts
      exact .some ⟨typeName, givenThere, given⟩

end Reorders

/-- Answers about the same nodes come to the same. -/
theorem Resolves.outcome_eq {other : Option TypeId} {first second : Except Fault (Option NodeId)}
    (resolves : one.Resolves asked name first) (resolvesToo : two.Resolves other name second)
    (alike : ∀ id, one.IsSought asked name id ↔ two.IsSought other name id) :
    outcome first = outcome second := by
  match first with
  | .ok none =>
      have nobody := resolves.missing.mp rfl
      rw [resolvesToo.missing.mpr fun id sought => nobody id ((alike id).mpr sought)]
  | .ok (some id) =>
      have only := (resolves.found id).mp rfl
      rw [(resolvesToo.found id).mpr fun other => (alike other).symm.trans (only other)]
  | .error fault =>
      obtain ⟨id, other, node, twin, sought, found, also, foundTwin, different, rfl⟩ :=
        resolves.refused fault rfl
      obtain ⟨one, another, apart, isOne, isAnother⟩ := resolves.ambiguous.mp ⟨_, _, rfl⟩
      obtain ⟨firstType, secondType, rfl⟩ := resolvesToo.ambiguous.mpr
        ⟨one, another, apart, (alike one).mp isOne, (alike another).mp isAnother⟩
      rfl

/-- A text finds the same where the types are declared in another order. -/
theorem Reorders.outcome_eq {askedThere : Option TypeId} (listed : one.Listed)
    (listedToo : two.Listed) (reorders : one.Reorders two)
    (alike : Option.Rel (one.Counterparts two) asked askedThere) (text : String) :
    outcome (one.nodeNamed? text asked) = outcome (two.nodeNamed? text askedThere) := by
  have searched {asked askedThere : Option TypeId} (name : String)
      (alike : Option.Rel (one.Counterparts two) asked askedThere) :
      outcome (one.uniqueAmong name (one.searched asked)) =
        outcome (two.uniqueAmong name (two.searched askedThere)) :=
    (listed.resolves_searched asked name).outcome_eq (listedToo.resolves_searched askedThere name)
      (reorders.isSought_iff listed listedToo alike)
  rw [nodeNamed?_eq, nodeNamed?_eq]
  cases Text.cutOnce? ':' text with
  | none => exact searched text alike
  | some cut =>
      obtain ⟨typeName, rest⟩ := cut
      simp only
      cases given : one.typeId? typeName with
      | some type =>
          obtain ⟨other, givenThere, -⟩ :=
            reorders.exists_typeId? listed.schema listedToo.schema given
          simp only [givenThere]
          exact searched rest (.some ⟨typeName, given, givenThere⟩)
      | none =>
          cases givenThere : two.typeId? typeName with
          | none => rfl
          | some other =>
              obtain ⟨type, isType, -⟩ :=
                reorders.symm.exists_typeId? listedToo.schema listed.schema givenThere
              cases given.symm.trans isType

end Graph

open Graph

/-- A name finds the only node that has it among the type that is asked for and its subtypes.  If
there is none it finds none, and if there are two it is refused.  A type in front of the name is
asked for instead, and it has to be declared.  None of it depends on the order in which the types
were declared. -/
theorem names_resolved {repository : Repository} (reachable : Reachable repository) :
    (∀ text asked, ':' ∉ text.toList →
      repository.graph.Resolves asked text (repository.graph.nodeNamed? text asked)) ∧
    (∀ typeName rest asked, ':' ∉ typeName.toList →
      (∀ id type, repository.graph.type? id = some type → type.name = typeName →
        repository.graph.Resolves (some id) rest
          (repository.graph.nodeNamed? (typeName ++ ":" ++ rest) asked)) ∧
      ((∀ id type, repository.graph.type? id = some type → type.name ≠ typeName) →
        repository.graph.nodeNamed? (typeName ++ ":" ++ rest) asked =
          .error (.notFound .nodeType typeName))) ∧
    ∀ other, Reachable other → repository.graph.Reorders other.graph →
      ∀ text asked askedThere,
        Option.Rel (repository.graph.Counterparts other.graph) asked askedThere →
        outcome (repository.graph.nodeNamed? text asked) =
          outcome (other.graph.nodeNamed? text askedThere) := by
  have listed := Reached.listed reachable
  refine ⟨fun text asked plain => ?_, fun typeName rest asked plain => ⟨?_, ?_⟩, ?_⟩
  · rw [nodeNamed?_eq, Text.cutOnce?_of_not_mem plain]
    exact listed.resolves_searched asked text
  · rintro id type found rfl
    simp only [nodeNamed?_eq, Text.cutOnce?_qualified plain, listed.schema.typeId?_eq found]
    exact listed.resolves_searched (some id) rest
  · intro undeclared
    have unknown : repository.graph.typeId? typeName = none := by
      refine Option.eq_none_iff_forall_ne_some.mpr fun id given => ?_
      obtain ⟨type, found, isName⟩ := listed.schema.typeId?_eq_some_iff.mp given
      exact undeclared id type found isName
    simp only [nodeNamed?_eq, Text.cutOnce?_qualified plain, unknown]
  · intro other reachableToo reorders text asked askedThere alike
    exact reorders.outcome_eq listed (Reached.listed reachableToo) alike text

/-- A task that is a bug and an idea, both named "x", and a task named "y". -/
def bugAndIdea (types : List Operation) (task bug idea : TypeId) : Repository :=
  Operation.run (types ++ [.mutate (.addNode bug "x"), .mutate (.addNode idea "x"),
    .mutate (.addNode task "y")]) .empty

def tasksFirst : Repository :=
  bugAndIdea [.addNodeType "Task" .plain, .addNodeType "Bug" ⟨some "Task", "", []⟩,
    .addNodeType "Idea" .plain] ⟨0⟩ ⟨1⟩ ⟨2⟩

def ideasFirst : Repository :=
  bugAndIdea [.addNodeType "Idea" .plain, .addNodeType "Task" .plain,
    .addNodeType "Bug" ⟨some "Task", "", []⟩] ⟨1⟩ ⟨2⟩ ⟨0⟩

theorem reachable_tasksFirst : Reachable tasksFirst :=
  reachable_run _

theorem reorders_ideasFirst : tasksFirst.graph.Reorders ideasFirst.graph where
  types := by decide
  nodes := fun ⟨index⟩ => by
    by_cases given : index < 3
    · revert index
      decide
    · have none (graph : Graph) (few : graph.nodes.next ≤ 3) : graph.node? ⟨index⟩ = none := by
        refine Option.eq_none_iff_forall_ne_some.mpr fun node found => given ?_
        exact Nat.lt_of_lt_of_le (Arena.lt_next_of_find? found) few
      rw [none tasksFirst.graph (by decide), none ideasFirst.graph (by decide)]
      rfl

/-- Among all nodes "x" is one too many, among the tasks it is the bug; there are no types of
other names.  It is the same where ideas are declared first. -/
theorem names_resolved_tasksFirst :
    let graph := tasksFirst.graph
    graph.Resolves none "x" (graph.nodeNamed? "x" none) ∧
      (graph.nodeNamed? "x" none).toOption = none ∧
      graph.Resolves (some ⟨0⟩) "x" (graph.nodeNamed? ("Task" ++ ":" ++ "x") (some ⟨2⟩)) ∧
      (graph.nodeNamed? ("Task" ++ ":" ++ "x") (some ⟨2⟩)).toOption = some (some ⟨0⟩) ∧
      graph.nodeNamed? ("Story" ++ ":" ++ "x") none = .error (.notFound .nodeType "Story") ∧
      outcome (graph.nodeNamed? "x" (some ⟨0⟩)) =
        outcome (ideasFirst.graph.nodeNamed? "x" (some ⟨1⟩)) := by
  intro graph
  obtain ⟨plain, typed, reordered⟩ := names_resolved reachable_tasksFirst
  obtain ⟨isTask, isName⟩ : (graph.type? ⟨0⟩).isSome = true ∧ graph.typeName ⟨0⟩ = "Task" := by
    decide
  obtain ⟨task, found⟩ := Option.isSome_iff_exists.mp isTask
  have named : task.name = "Task" := by simpa [typeName, found] using isName
  have noStory : graph.typeId? "Story" = none := by decide
  refine ⟨plain "x" none (by decide), by decide,
    (typed "Task" "x" (some ⟨2⟩) (by decide)).1 ⟨0⟩ task found named, by decide,
    (typed "Story" "x" none (by decide)).2 fun id type isType isStory => ?_,
    reordered ideasFirst ?_ reorders_ideasFirst "x" (some ⟨0⟩) (some ⟨1⟩)
      (.some ⟨"Task", by decide, by decide⟩)⟩
  · have given := (Reached.listed reachable_tasksFirst).schema.typeId?_eq isType
    rw [isStory] at given
    cases noStory.symm.trans given
  · exact reachable_run _

end LifecycleGraph
