import LifecycleGraph.Proofs.Forest.Lookup
import LifecycleGraph.Proofs.Repository.Naming
import LifecycleGraph.Repository.Converter

/-!
# What written names stand for

A tag is written as names, and these are read as the first tag that answers to them: one
below the namespace before the others, and among those the oldest.  A node is written with
the name of its type in front, or below its own type, and is looked up there among all types
that derive from it.  So each is read back if no other one that answers comes before it.
-/

set_option autoImplicit false

namespace LifecycleGraph

/-! ## Tags -/

namespace Forest

variable {forest : Forest}

/-- The tag that a text stands for where a tag, maybe below a namespace, is expected. -/
def resolve? (forest : Forest) : Option TagId → String → Option TagId
  | some ns, name => forest.lookupBelow? ns name <|> forest.lookup? name
  | none, name => forest.lookup? name

/-- The tag stands below the namespace that is asked for. -/
def Inside (forest : Forest) (ns : Option TagId) (id : TagId) : Prop :=
  ∃ space, ns = some space ∧ forest.Below space id

/-- The first tag is preferred: it is inside and the second one is not, or it is the older of
two that are alike in this. -/
def Precedes (forest : Forest) (ns : Option TagId) (one other : TagId) : Prop :=
  forest.Inside ns one ∧ ¬ forest.Inside ns other ∨
    (forest.Inside ns one ↔ forest.Inside ns other) ∧ one.index < other.index

/-- The names that stand for a tag: its own one directly below the namespace that is asked
for, and else those on the way from the root. -/
def namesOf (forest : Forest) (ns : Option TagId) (id : TagId) : List String :=
  match forest.find? id with
  | some tag => if ns.isSome && tag.parent == ns then [tag.name] else forest.path id
  | none => []

theorem inside_some_iff (ns id : TagId) : forest.Inside (some ns) id ↔ forest.Below ns id := by
  simp [Inside]

theorem not_inside_none (id : TagId) : ¬ forest.Inside none id := by
  simp [Inside]

theorem not_precedes_of_precedes {ns : Option TagId} {one other : TagId}
    (precedes : forest.Precedes ns one other) : ¬ forest.Precedes ns other one := by
  rintro (⟨inside, outside⟩ | ⟨alike, older⟩)
  · rcases precedes with ⟨insideToo, -⟩ | ⟨alike, -⟩
    · exact outside insideToo
    · exact outside (alike.mpr inside)
  · rcases precedes with ⟨inside, outside⟩ | ⟨-, olderToo⟩
    · exact outside (alike.mpr inside)
    · omega

/-- Where all are alike, the first one is the oldest. -/
theorem first_iff_oldest {ns : Option TagId} {answers : TagId → Prop} {id : TagId}
    (alike : ∀ other, answers other → (forest.Inside ns id ↔ forest.Inside ns other)) :
    (∀ other, answers other → id.index ≤ other.index) ↔
      ∀ other, answers other → other = id ∨ forest.Precedes ns id other := by
  refine forall_congr' fun other => ⟨fun older isAnswer => ?_, fun first isAnswer => ?_⟩
  · rcases Nat.eq_or_lt_of_le (older isAnswer) with same | younger
    · exact .inl (congrArg TagId.mk same.symm)
    · exact .inr (.inr ⟨alike other isAnswer, younger⟩)
  · rcases first isAnswer with rfl | ⟨inside, outside⟩ | ⟨-, younger⟩
    · exact Nat.le_refl _
    · exact absurd ((alike other isAnswer).mp inside) outside
    · exact Nat.le_of_lt younger

/-- A text stands for the first of the tags that answer to its names. -/
theorem Linked.resolve?_eq_some_iff (linked : forest.Linked) (ns : Option TagId) (name : String)
    (id : TagId) :
    forest.resolve? ns name = some id ↔
      forest.Answers (Text.parts '.' name) id ∧
        ∀ other, forest.Answers (Text.parts '.' name) other →
          other = id ∨ forest.Precedes ns id other := by
  -- Unless some tag inside answers, they are all outside.
  have outside (nobody : ∀ other, forest.Answers (Text.parts '.' name) other →
      ¬ forest.Inside ns other) :
      forest.lookup? name = some id ↔
        forest.Answers (Text.parts '.' name) id ∧
          ∀ other, forest.Answers (Text.parts '.' name) other →
            other = id ∨ forest.Precedes ns id other := by
    rw [linked.lookup?_eq_some_iff]
    refine and_congr_right fun answers => first_iff_oldest fun other answersToo => ?_
    exact iff_of_false (nobody id answers) (nobody other answersToo)
  cases ns with
  | none => exact outside fun other _ => not_inside_none other
  | some ns =>
      rw [resolve?]
      cases below : forest.lookupBelow? ns name with
      | none =>
          refine outside fun other answers => ?_
          rw [inside_some_iff]
          exact (linked.lookupBelow?_eq_none_iff ns name).mp below other answers
      | some found =>
          obtain ⟨⟨answers, isBelow⟩, oldest⟩ :=
            (linked.lookupBelow?_eq_some_iff ns name found).mp below
          have inside := (inside_some_iff ns found).mpr isBelow
          have first (other : TagId) (answersToo : forest.Answers (Text.parts '.' name) other) :
              other = found ∨ forest.Precedes (some ns) found other := by
            by_cases insideToo : forest.Inside (some ns) other
            · have older := oldest other answersToo ((inside_some_iff ns other).mp insideToo)
              rcases Nat.eq_or_lt_of_le older with same | younger
              · exact .inl (congrArg TagId.mk same.symm)
              · exact .inr (.inr ⟨iff_of_true inside insideToo, younger⟩)
            · exact .inr (.inl ⟨inside, insideToo⟩)
          refine Option.some_inj.trans ⟨?_, ?_⟩
          · rintro rfl
            exact ⟨answers, first⟩
          · rintro ⟨answersToo, alsoFirst⟩
            rcases first id answersToo with same | precedes
            · exact same.symm
            · exact (alsoFirst found answers).resolve_right (not_precedes_of_precedes precedes)

/-- Names to which a tag answers stand for some tag. -/
theorem Linked.exists_resolve?_eq_some (linked : forest.Linked) (ns : Option TagId)
    {name : String} {id : TagId} (answers : forest.Answers (Text.parts '.' name) id) :
    ∃ read, forest.resolve? ns name = some read := by
  obtain ⟨oldest, found⟩ := linked.exists_lookup?_eq_some ⟨id, answers⟩
  cases ns with
  | none => exact ⟨oldest, found⟩
  | some ns =>
      rw [resolve?, found]
      cases forest.lookupBelow? ns name with
      | none => exact ⟨oldest, rfl⟩
      | some below => exact ⟨below, rfl⟩

theorem Rooted.answers_namesOf (rooted : forest.Rooted) (ns : Option TagId) {id : TagId}
    (present : forest.contains id = true) : forest.Answers (forest.namesOf ns id) id := by
  obtain ⟨tag, found⟩ := (contains_iff id).mp present
  rw [namesOf, found]
  simp only
  split
  · exact rooted.answers_name found
  · exact answers_path found

/-- What is written for a tag has its names as parts. -/
theorem Linked.parts_namesOf (linked : forest.Linked) (ns : Option TagId) {id : TagId}
    (present : forest.contains id = true) :
    Text.parts '.' (Text.joinWith "." (forest.namesOf ns id)) = forest.namesOf ns id := by
  obtain ⟨tag, found⟩ := (contains_iff id).mp present
  have isPath := linked.parts_absoluteName found
  rw [namesOf, found]
  simp only
  split
  · exact linked.parts_name found
  · exact isPath

end Forest

namespace Converter

variable {graph : Graph}

theorem encode_tag (ns : Option TagId) {id : TagId}
    (present : graph.tags.contains id = true) :
    tag.encode (.tag id) (.tag ns) graph =
      .ok (.text (Text.joinWith "." (graph.tags.namesOf ns id))) := by
  obtain ⟨entry, found⟩ := (Forest.contains_iff id).mp present
  cases ns with
  | none => simp [tag, found, Forest.namesOf, Forest.absoluteName]
  | some ns =>
      by_cases isParent : entry.parent = some ns
      · simp [tag, found, Forest.namesOf, isParent, Text.joinWith]
      · simp [tag, found, Forest.namesOf, isParent, Forest.absoluteName]

theorem decode_tag (ns : Option TagId) (name : String) :
    tag.decode (.text name) (.tag ns) graph =
      match graph.tags.resolve? ns name with
      | some id => .ok (.tag id)
      | none => .error (.notFound .tag name) := by
  cases ns <;> rfl

/-- A tag is read back as the first of those that answer to the names that it is written as. -/
theorem exists_decode_tag (linked : graph.tags.Linked) (ns : Option TagId) {id : TagId}
    (present : graph.tags.contains id = true) :
    ∃ read, tag.decode (.text (Text.joinWith "." (graph.tags.namesOf ns id))) (.tag ns) graph =
        .ok (.tag read) ∧
      graph.tags.Answers (graph.tags.namesOf ns id) read ∧
      ∀ other, graph.tags.Answers (graph.tags.namesOf ns id) other →
        other = read ∨ graph.tags.Precedes ns read other := by
  have answers := linked.rooted.answers_namesOf ns present
  rw [← linked.parts_namesOf ns present] at answers
  obtain ⟨read, found⟩ := linked.exists_resolve?_eq_some ns answers
  have first := (linked.resolve?_eq_some_iff ns _ read).mp found
  rw [linked.parts_namesOf ns present] at first
  exact ⟨read, by rw [decode_tag, found], first⟩

/-! ## Nodes -/

theorem encode_node {id : NodeId} {entry : Node} (found : graph.node? id = some entry)
    {own : NodeType} (isOwn : graph.type? entry.type = some own) (declared : Option TypeId) :
    node.encode (.node id) (.node declared) graph =
      .ok (.text (if declared = some entry.type then entry.name
        else own.name ++ ":" ++ entry.name)) := by
  cases declared with
  | none => simp [node, found, isOwn]
  | some declared =>
      by_cases same : declared = entry.type
      · simp [node, found, same]
      · simp [node, found, isOwn, same]

/-- However a node is written, it is looked up as its name is where its own type is asked
for. -/
theorem decode_node (listed : graph.Listed) {entry : Node} {own : NodeType}
    (isOwn : graph.type? entry.type = some own) (plain : ':' ∉ own.name.toList)
    (valid : Graph.validNodeName entry.name = true) {answer : Except Fault NodeId}
    (searched : graph.nodeNamed? entry.name (some entry.type) = answer.map some)
    (declared : Option TypeId) :
    node.decode (.text (if declared = some entry.type then entry.name
        else own.name ++ ":" ++ entry.name)) (.node declared) graph = answer.map .node := by
  simp only [node, textOf?]
  by_cases same : declared = some entry.type
  · rw [if_pos same, same, Graph.nodeNamed_of_nodeNamed? searched]
  · rw [if_neg same, Graph.nodeNamed_of_nodeNamed?]
    rw [Graph.nodeNamed?_qualified listed isOwn plain valid, searched]

end Converter

/-! ## Written and read back -/

namespace Repository

variable {repository : Repository}

/-- A tag is read back as the first of the tags that answer to the names that it is written
as.  So it is read as itself exactly if no other one that answers to them precedes it. -/
theorem decode_encode_tag (reachable : Reachable repository) (ns : Option TagId) {id : TagId}
    (present : repository.graph.tags.contains id = true) :
    let forest := repository.graph.tags
    ∃ name read,
      Converter.tag.encode (.tag id) (.tag ns) repository.graph = .ok (.text name) ∧
      Converter.tag.decode (.text name) (.tag ns) repository.graph = .ok (.tag read) ∧
      Text.parts '.' name = forest.namesOf ns id ∧
      forest.Answers (forest.namesOf ns id) id ∧
      forest.Answers (forest.namesOf ns id) read ∧
      (∀ other, forest.Answers (forest.namesOf ns id) other →
        other = read ∨ forest.Precedes ns read other) ∧
      (read = id ↔
        ∀ other, forest.Answers (forest.namesOf ns id) other → ¬ forest.Precedes ns other id) := by
  intro forest
  have linked : forest.Linked := (Reached.listed reachable).linked
  have own := linked.rooted.answers_namesOf ns present
  obtain ⟨read, decoded, answers, first⟩ := Converter.exists_decode_tag linked ns present
  refine ⟨_, read, Converter.encode_tag ns present, decoded, linked.parts_namesOf ns present, own,
    answers, first, ?_, fun unpreceded => ?_⟩
  · rintro rfl other isAnswer precedes
    rcases first other isAnswer with rfl | follows
    · exact Forest.not_precedes_of_precedes precedes precedes
    · exact Forest.not_precedes_of_precedes follows precedes
  · exact ((first id own).resolve_right (unpreceded read answers)).symm

/-- A bug and an old one, each among the tags of its kind. -/
def bugsOfKinds : Repository :=
  Operation.run
    [.newTag none "kind", .newTag (some ⟨0⟩) "bug", .newTag none "old", .newTag (some ⟨2⟩) "bug"]
    .empty

/-- Among the old kinds the old bug is read back, as it precedes the other one there. -/
theorem decode_encode_tag_bugsOfKinds :
    Converter.tag.encode (.tag ⟨3⟩) (.tag (some ⟨2⟩)) bugsOfKinds.graph = .ok (.text "bug") ∧
      Converter.tag.decode (.text "bug") (.tag (some ⟨2⟩)) bugsOfKinds.graph = .ok (.tag ⟨3⟩) ∧
      bugsOfKinds.graph.tags.Precedes (some ⟨2⟩) ⟨3⟩ ⟨1⟩ ∧
      Converter.tag.decode (.text "bug") (.tag none) bugsOfKinds.graph = .ok (.tag ⟨1⟩) := by
  have reachable : Reachable bugsOfKinds := reachable_run _
  have present : bugsOfKinds.graph.tags.contains ⟨3⟩ = true := by decide
  have names : bugsOfKinds.graph.tags.namesOf (some ⟨2⟩) ⟨3⟩ = ["bug"] := by decide
  have homonym : bugsOfKinds.graph.tags.Answers ["bug"] ⟨1⟩ :=
    ⟨by decide, by decide⟩
  obtain ⟨name, read, encoded, decoded, parts, -, -, first, -⟩ :=
    decode_encode_tag reachable (some ⟨2⟩) present
  have written : Converter.tag.encode (.tag ⟨3⟩) (.tag (some ⟨2⟩)) bugsOfKinds.graph =
      .ok (.text "bug") := by rfl
  obtain rfl : "bug" = name := Json.text.inj (Except.ok.inj (written.symm.trans encoded))
  have readAs : Converter.tag.decode (.text "bug") (.tag (some ⟨2⟩)) bugsOfKinds.graph =
      .ok (.tag ⟨3⟩) := by rfl
  obtain rfl : ⟨3⟩ = read := Value.tag.inj (Except.ok.inj (readAs.symm.trans decoded))
  rw [names] at first
  exact ⟨written, readAs, (first ⟨1⟩ homonym).resolve_left (by decide), rfl⟩

/-- A tag below another one, and a younger one of the same name. -/
def youngerRoot : Repository :=
  Operation.run [.newTag none "a", .newTag (some ⟨0⟩) "b", .newTag none "b"] .empty

/-- The younger tag is written by its absolute name, to which the older one answers too. -/
theorem youngerRoot_misread :
    Reachable youngerRoot ∧ youngerRoot.graph.tags.contains ⟨2⟩ = true ∧
      Converter.tag.encode (.tag ⟨2⟩) (.tag none) youngerRoot.graph = .ok (.text "b") ∧
      Converter.tag.decode (.text "b") (.tag none) youngerRoot.graph = .ok (.tag ⟨1⟩) :=
  ⟨reachable_run _, by decide, rfl, rfl⟩

/-- A node is read back as its name is looked up among its type and those that derive from it,
also by its label.  So it is read as itself exactly if no other node there has its name; else
two types of them are said to make the name ambiguous. -/
theorem decode_encode_node (reachable : Reachable repository)
    (plain : ∀ id type, repository.graph.type? id = some type → ':' ∉ type.name.toList)
    {id : NodeId} {node : Node} (found : repository.graph.node? id = some node)
    (declared : Option TypeId) :
    let graph := repository.graph
    ∃ name, ∃ answer : Except Fault NodeId,
      Converter.node.encode (.node id) (.node declared) graph = .ok (.text name) ∧
      Converter.node.decode (.text name) (.node declared) graph = answer.map .node ∧
      (∀ asked, graph.nodeNamed (graph.label id) asked = answer) ∧
      (answer = .ok id ∧ (∀ type other, graph.IsHomonym node type other → other = id) ∨
        ∃ first second one another, first ≠ second ∧ graph.IsHomonym node first one ∧
          graph.IsHomonym node second another ∧
          answer = .error
            (.ambiguous node.name (graph.typeName first) (graph.typeName second))) := by
  intro graph
  have listed : graph.Listed := Reached.listed reachable
  have valid := (Reached.proper reachable id node found).name
  obtain ⟨own, isOwn⟩ := Option.isSome_iff_exists.mp
    ((Graph.isSome_type?_iff node.type).mpr (listed.type_lt found))
  have plainOwn := plain node.type own isOwn
  have label : graph.label id = own.name ++ ":" ++ node.name := by
    simp [Graph.label, Graph.typeName, graph, found, isOwn]
  have encoded := Converter.encode_node found isOwn declared
  -- Whatever the search comes to, it comes to the same for each way of writing the node.
  have reads {answer : Except Fault NodeId}
      (searched : graph.nodeNamed? node.name (some node.type) = answer.map some) :
      Converter.node.decode (.text (if declared = some node.type then node.name
          else own.name ++ ":" ++ node.name)) (.node declared) graph = answer.map .node ∧
        ∀ asked, graph.nodeNamed (graph.label id) asked = answer := by
    refine ⟨Converter.decode_node listed isOwn plainOwn valid searched declared, fun asked => ?_⟩
    rw [label, Graph.nodeNamed_of_nodeNamed?]
    rw [Graph.nodeNamed?_qualified listed isOwn plainOwn valid, searched]
  rcases Graph.nodeNamed?_own listed found valid with ⟨searched, alone⟩ |
    ⟨first, second, one, another, different, isOne, isAnother, searched⟩
  · have reading : graph.nodeNamed? node.name (some node.type) = (Except.ok id).map some :=
      searched
    obtain ⟨decoded, byLabel⟩ := reads reading
    exact ⟨_, _, encoded, decoded, byLabel, .inl ⟨rfl, alone⟩⟩
  · have reading : graph.nodeNamed? node.name (some node.type) =
        (Except.error (.ambiguous node.name (graph.typeName first)
          (graph.typeName second))).map some := searched
    obtain ⟨decoded, byLabel⟩ := reads reading
    exact ⟨_, _, encoded, decoded, byLabel,
      .inr ⟨first, second, one, another, different, isOne, isAnother, rfl⟩⟩

/-- A bug among the tasks, one of another name, and a note and a task with that name. -/
def notesAndTasks : Repository :=
  Operation.run
    [.addNodeType "Task" .plain, .addNodeType "Bug" ⟨some "Task", "", []⟩,
      .addNodeType "Note" .plain, .mutate (.addNode ⟨0⟩ "a"), .mutate (.addNode ⟨1⟩ "b"),
      .mutate (.addNode ⟨2⟩ "b")]
    .empty

/-- The bug is read back among the tasks: of these no other one has its name. -/
theorem decode_encode_node_notesAndTasks :
    ∃ node, notesAndTasks.graph.node? ⟨1⟩ = some node ∧
      Converter.node.encode (.node ⟨1⟩) (.node (some ⟨0⟩)) notesAndTasks.graph =
        .ok (.text "Bug:b") ∧
      Converter.node.decode (.text "Bug:b") (.node (some ⟨0⟩)) notesAndTasks.graph =
        .ok (.node ⟨1⟩) ∧
      notesAndTasks.graph.nodeNamed (notesAndTasks.graph.label ⟨1⟩) none = .ok ⟨1⟩ ∧
      ∀ type other, notesAndTasks.graph.IsHomonym node type other → other = ⟨1⟩ := by
  have reachable : Reachable notesAndTasks := reachable_run _
  have plain : ∀ type ∈ notesAndTasks.graph.types.members, ':' ∉ type.name.toList := by
    decide
  obtain ⟨node, found⟩ := Option.isSome_iff_exists.mp
    (by decide : (notesAndTasks.graph.node? ⟨1⟩).isSome = true)
  obtain ⟨name, answer, encoded, decoded, byLabel, outcome⟩ :=
    decode_encode_node reachable (fun id type isType => plain type
      ((Roster.mem_members_iff _ type).mpr ⟨id.index, isType⟩)) found (some ⟨0⟩)
  have written : Converter.node.encode (.node ⟨1⟩) (.node (some ⟨0⟩)) notesAndTasks.graph =
      .ok (.text "Bug:b") := by rfl
  obtain rfl : "Bug:b" = name := Json.text.inj (Except.ok.inj (written.symm.trans encoded))
  have readAs : Converter.node.decode (.text "Bug:b") (.node (some ⟨0⟩)) notesAndTasks.graph =
      .ok (.node ⟨1⟩) := by rfl
  obtain ⟨read, rfl, same⟩ := exists_of_map_eq_ok (decoded.symm.trans readAs)
  cases same
  rcases outcome with ⟨-, alone⟩ | ⟨_, _, _, _, -, -, -, ambiguous⟩
  · exact ⟨node, found, written, readAs, byLabel none, alone⟩
  · cases ambiguous

/-- A task and a bug, which is a task too, of the same name. -/
def namesakes : Repository :=
  Operation.run
    [.addNodeType "Task" .plain, .addNodeType "Bug" ⟨some "Task", "", []⟩,
      .mutate (.addNode ⟨0⟩ "a"), .mutate (.addNode ⟨1⟩ "a")]
    .empty

/-- Neither by its name nor by its label is the task found again, as the bug has its name. -/
theorem namesakes_unread :
    Reachable namesakes ∧
      (∀ type ∈ namesakes.graph.types.members, ':' ∉ type.name.toList) ∧
      Converter.node.encode (.node ⟨0⟩) (.node (some ⟨0⟩)) namesakes.graph = .ok (.text "a") ∧
      Converter.node.decode (.text "a") (.node (some ⟨0⟩)) namesakes.graph =
        .error (.ambiguous "a" "Task" "Bug") ∧
      namesakes.graph.label ⟨0⟩ = "Task:a" ∧
      namesakes.graph.nodeNamed "Task:a" none = .error (.ambiguous "a" "Task" "Bug") :=
  ⟨reachable_run _, by decide, rfl, rfl, by decide, rfl⟩

end Repository

end LifecycleGraph
