import LifecycleGraph.Proofs.Query.Meaning
import LifecycleGraph.Proofs.Repository.Run

/-!
# The answers of queries

Whatever operations a repository was reached by, a query enumerates exactly the
nodes on which its condition holds, each once, and tests nodes as the condition
does.
-/

set_option autoImplicit false

namespace LifecycleGraph

namespace Repository

open Graph

variable {repository : Repository}

/-- A query of a text is bound to what its condition is bound to. -/
theorem boundQuery_spec {text : String} {query : Query}
    (bound : repository.boundQuery text = .ok query) :
    ∃ condition expression, Condition.parse text = .ok condition ∧
      query = ⟨text, condition, some expression⟩ ∧
      repository.bind ⟨text, condition, none⟩ = .ok expression := by
  rw [boundQuery] at bound
  obtain ⟨parsed, isParsed, bound⟩ := exists_of_bind_eq_ok bound
  rw [Query.parse] at isParsed
  split at isParsed
  · rename_i condition read
    cases isParsed
    obtain ⟨expression, isBound, rfl⟩ := exists_of_map_eq_ok bound
    exact ⟨condition, expression, read, rfl, isBound⟩
  · cases isParsed

/-- The executor that a text is compiled to enumerates as it accepts, and accepts the
nodes on which the condition holds. -/
theorem compile_spec (listed : repository.graph.Listed) {text : String}
    {condition : Option Condition} {expression : Expression} {executor : NodeExecutor}
    (read : Condition.parse text = .ok condition)
    (bound : repository.bind ⟨text, condition, none⟩ = .ok expression)
    (compiled : NodeExecutor.compile repository expression = .ok executor) :
    executor.Lawful repository.graph.Live ∧
      ∀ id, executor.accepts id = repository.holdsQuery condition id := by
  cases condition with
  | none =>
      cases bound
      rw [NodeExecutor.compile_everything] at compiled
      cases compiled
      exact ⟨NodeExecutor.lawful_everything listed, NodeExecutor.accepts_everything _⟩
  | some condition =>
      obtain ⟨answer, isBound, rfl⟩ := exists_of_map_eq_ok bound
      obtain ⟨found, rfl, expresses⟩ :=
        boundTo_of_joined listed (Condition.joined_of_parse read) answer isBound
      obtain ⟨lawful, accepts⟩ := expresses executor compiled
      exact ⟨lawful, accepts⟩

/-- Where an executor does not enumerate, all nodes are enumerated and filtered. -/
theorem items_execute (listed : repository.graph.Listed) {compiled : NodeExecutor}
    (lawful : compiled.Lawful repository.graph.Live) {executor : NodeExecutor}
    (isExecutor : executor = if compiled.iterable then compiled
      else .filtered (NodeExecutor.everything repository.graph) [compiled]) :
    executor.items.Nodup ∧
      (∀ id, id ∈ executor.items ↔ repository.graph.Live id ∧ compiled.accepts id = true) ∧
      ∀ id, repository.graph.Live id → executor.accepts id = compiled.accepts id := by
  by_cases iterable : compiled.iterable = true
  · rw [if_pos iterable] at isExecutor
    subst isExecutor
    refine ⟨lawful.nodup iterable, fun id => ?_, fun _ _ => rfl⟩
    rw [lawful.mem_items iterable id]
    exact (and_iff_right_of_imp (lawful.live iterable id)).symm
  · rw [if_neg iterable] at isExecutor
    subst isExecutor
    have everything := NodeExecutor.lawful_everything listed
    have filtered := everything.filtered [compiled]
    have accepts (id : NodeId) :
        (Executor.filtered (NodeExecutor.everything repository.graph) [compiled]).accepts id =
          ((repository.graph.node? id).isSome && compiled.accepts id) := by
      rw [Executor.accepts_filtered, NodeExecutor.accepts_everything, List.all_cons, List.all_nil,
        Bool.and_true]
    refine ⟨filtered.nodup rfl, fun id => ?_, fun id live => ?_⟩
    · rw [filtered.mem_items rfl id, accepts, Bool.and_eq_true]
      rfl
    · have isSome : (repository.graph.node? id).isSome = true := live
      rw [accepts, isSome, Bool.true_and]

/-- Different nodes that are there are not more than were ever added. -/
theorem length_le_of_live {ids : List NodeId} (nodup : ids.Nodup)
    (live : ∀ id ∈ ids, repository.graph.Live id) :
    ids.length ≤ repository.graph.nodes.next := by
  have numbers : (ids.map NodeId.index).Nodup :=
    nodup.map fun a b same => by cases a; cases b; exact congrArg NodeId.mk same
  have within : ids.map NodeId.index ⊆ List.range repository.graph.nodes.next := by
    intro index member
    obtain ⟨id, isId, rfl⟩ := List.mem_map.mp member
    obtain ⟨node, found⟩ := Option.isSome_iff_exists.mp (live id isId)
    exact List.mem_range.mpr (Arena.lt_next_of_find? found)
  have shorter := (List.subperm_of_subset numbers within).length_le
  simpa using shorter

/-- A query enumerates, each once, the nodes that are there and on which its condition
holds; it tests nodes as the condition does, and what it is compiled to does not
estimate less than it enumerates, as far as that can be counted. -/
theorem query_answers (reachable : Reachable repository) {text : String} {executor : NodeExecutor}
    (answered : repository.query text = .ok executor) :
    ∃ condition query compiled, Condition.parse text = .ok condition ∧
      repository.boundQuery text = .ok query ∧ repository.compile query = .ok compiled ∧
      executor.items.Nodup ∧
      (∀ id, id ∈ executor.items ↔
        repository.graph.Live id ∧ repository.holdsQuery condition id = true) ∧
      (∀ id, repository.graph.Live id →
        executor.accepts id = repository.holdsQuery condition id ∧
          compiled.accepts id = repository.holdsQuery condition id) ∧
      (compiled.iterable = true →
        min compiled.items.length unbounded ≤ compiled.size ∧
          (repository.graph.nodes.next ≤ unbounded → compiled.items.length ≤ compiled.size)) := by
  have listed := Reached.listed reachable
  rw [Repository.query] at answered
  obtain ⟨query, isQuery, answered⟩ := exists_of_bind_eq_ok answered
  obtain ⟨compiled, isCompiled, isExecutor⟩ := exists_of_map_eq_ok answered
  obtain ⟨condition, expression, read, rfl, bound⟩ := boundQuery_spec isQuery
  have isCompiledToo : NodeExecutor.compile repository expression = .ok compiled := isCompiled
  obtain ⟨lawful, accepts⟩ := compile_spec listed read bound isCompiledToo
  obtain ⟨nodup, members, tests⟩ := items_execute listed lawful isExecutor.symm
  refine ⟨condition, _, compiled, read, isQuery, isCompiled, nodup, fun id => ?_,
    fun id live => ⟨?_, accepts id⟩, fun iterable => ⟨lawful.size iterable, fun countable => ?_⟩⟩
  · rw [members id, accepts]
  · rw [tests id live, accepts]
  · have few := length_le_of_live (lawful.nodup iterable) fun id member =>
      lawful.live iterable id ((lawful.mem_items iterable id).mp member)
    have enough := lawful.size iterable
    omega

/-- Two types, one derived from the other, with three nodes: one in a state, one tagged. -/
def fewNodes : Repository :=
  Operation.run
    [.addNodeType "Task" .plain, .addNodeType "Bug" ⟨some "Task", "", []⟩,
      .addState "open" .plain, .newTag none "red", .mutate (.addNode ⟨0⟩ "a"),
      .mutate (.addNode ⟨1⟩ "b"), .mutate (.addNode ⟨0⟩ "c"), .mutate (.addTag ⟨2⟩ ⟨0⟩),
      .mutate (.setState ⟨1⟩ (some ⟨0⟩))]
    .empty

/-- Among the few nodes, the one in the state and the tagged one are found. -/
theorem query_answers_fewNodes :
    ∃ executor condition, fewNodes.query "open | red & !Bug" = .ok executor ∧
      Condition.parse "open | red & !Bug" = .ok condition ∧
      executor.items = [⟨1⟩, ⟨2⟩] ∧ executor.items.Nodup ∧
      (∀ id, id ∈ executor.items ↔
        fewNodes.graph.Live id ∧ fewNodes.holdsQuery condition id = true) ∧
      ∀ id, fewNodes.graph.Live id →
        executor.accepts id = fewNodes.holdsQuery condition id := by
  have reachable : Reachable fewNodes := reachable_run _
  have found : ((fewNodes.query "open | red & !Bug").toOption.map Executor.items) =
      some [⟨1⟩, ⟨2⟩] := by
    decide +kernel
  cases answered : fewNodes.query "open | red & !Bug" with
  | error fault =>
      rw [answered] at found
      cases found
  | ok executor =>
      rw [answered] at found
      obtain ⟨condition, query, compiled, read, -, -, nodup, members, tests, -⟩ :=
        query_answers reachable answered
      exact ⟨executor, condition, rfl, read, Option.some.inj found, nodup, members,
        fun id live => (tests id live).1⟩

end Repository

end LifecycleGraph
