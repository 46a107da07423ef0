import LifecycleGraph.Proofs.Query.Meaning
import LifecycleGraph.Proofs.Repository.Run

/-!
# Match modes and negation

A relation asks whether all or any of the values at the end of a path fit, and a value fits with
any right-hand side that it equals, or with all from which it differs.  A relation is turned round
by turning round both its mode and its comparison, and an application by turning round its mode
and its condition.  A right-hand side that is no value of the type equals nothing and differs from
everything, so that it makes no difference to this, nor does a path that leads to no value.
-/

set_option autoImplicit false

namespace LifecycleGraph

/-- Where all have to fit it is enough for the opposite that any one does not, and the other way
round. -/
def MatchMode.opposite : MatchMode → MatchMode
  | .all => .any
  | .any => .all

theorem MatchMode.over_opposite {α : Type} (mode : MatchMode) (values : List α)
    (test : α → Bool) :
    mode.opposite.over values (fun value => !test value) = !mode.over values test := by
  cases mode with
  | all => exact List.not_all_eq_any_not.symm
  | any => exact List.not_any_eq_all_not.symm

namespace NodeExecutor

variable (repository : Repository)

theorem relates_over (path : BoundPath) (relation : Relation) (operands : List Operand)
    (id : NodeId) :
    relates repository path relation operands id =
      relation.effectiveMode.over (path.typedValues repository.graph id) fun value =>
        compares repository relation.comparison operands value.1 value.2 := by
  rw [relates]
  cases relation.effectiveMode <;> rfl

theorem applies_over (graph : Graph) (path : BoundPath) (mode : MatchMode) (test : NodeId → Bool)
    (id : NodeId) : applies graph path mode test id = mode.over (path.nodes graph id) test := by
  cases mode <;> rfl

/-! ## Several right-hand sides -/

/-- A value equals one of several right-hand sides if it equals any one alone. -/
theorem compares_equal (operands : List Operand) (value : Value) (declared : DataType) :
    compares repository .equal operands value declared =
      operands.any fun operand => compares repository .equal [operand] value declared := by
  simp only [compares, List.any_cons, List.any_nil, Bool.or_false]

theorem compares_unequal (operands : List Operand) (value : Value) (declared : DataType) :
    compares repository .unequal operands value declared =
      operands.all fun operand => compares repository .unequal [operand] value declared := by
  simp only [compares, List.all_cons, List.all_nil, Bool.and_true]

/-- A value differs from all right-hand sides if it equals none of them.  This holds also of one
that has no value, which does not count as equal. -/
theorem compares_unequal_eq_not (operands : List Operand) (value : Value) (declared : DataType) :
    compares repository .unequal operands value declared =
      !compares repository .equal operands value declared := by
  simp only [compares, List.not_any_eq_all_not]
  congr 1
  funext operand
  cases operandValue? repository declared operand <;> rfl

/-! ## Relations and applications turned round -/

theorem relates_unequal (path : BoundPath) (mode : MatchMode) (operands : List Operand)
    (id : NodeId) :
    relates repository path ⟨some mode.opposite, .unequal⟩ operands id =
      !relates repository path ⟨some mode, .equal⟩ operands id := by
  simp only [relates_over, Relation.effectiveMode, Option.getD_some, compares_unequal_eq_not]
  exact MatchMode.over_opposite ..

theorem applies_opposite (graph : Graph) (path : BoundPath) (mode : MatchMode)
    (test : NodeId → Bool) (id : NodeId) :
    applies graph path mode.opposite (fun reached => !test reached) id =
      !applies graph path mode test id := by
  simp only [applies_over]
  exact MatchMode.over_opposite ..

theorem relates_any_equal (path : BoundPath) {mode : Option MatchMode}
    (isAny : Relation.effectiveMode ⟨mode, .equal⟩ = .any) (operands : List Operand)
    (id : NodeId) :
    relates repository path ⟨mode, .equal⟩ operands id = true ↔
      ∃ operand ∈ operands, relates repository path ⟨mode, .equal⟩ [operand] id = true := by
  simp only [relates_over, isAny, MatchMode.over, compares_equal repository operands,
    List.any_eq_true]
  constructor
  · rintro ⟨value, isValue, operand, isOperand, equal⟩
    exact ⟨operand, isOperand, value, isValue, equal⟩
  · rintro ⟨operand, isOperand, value, isValue, equal⟩
    exact ⟨value, isValue, operand, isOperand, equal⟩

theorem relates_all_unequal (path : BoundPath) (operands : List Operand) (id : NodeId) :
    relates repository path ⟨some .all, .unequal⟩ operands id = true ↔
      ∀ operand ∈ operands, relates repository path ⟨some .all, .unequal⟩ [operand] id = true := by
  simp only [relates_over, Relation.effectiveMode, Option.getD_some, MatchMode.over,
    compares_unequal repository operands, List.all_eq_true]
  exact ⟨fun each operand isOperand value isValue => each value isValue operand isOperand,
    fun each value isValue operand isOperand => each operand isOperand value isValue⟩

end NodeExecutor

namespace Repository

/-! ## What is bound to nothing -/

variable {repository : Repository}

/-- A condition is not bound to nothing. -/
def Binds (repository : Repository) (condition : Condition) : Prop :=
  repository.bindCondition condition ≠ .ok none

theorem length_of_bindAny {terms : List Condition} (each : ∀ term ∈ terms, repository.Binds term)
    {bound : List Expression} (isBound : repository.bindAny terms = .ok bound) :
    bound.length = terms.length := by
  induction terms generalizing bound with
  | nil =>
      cases isBound
      rfl
  | cons term rest inductionHypothesis =>
      rw [bindAny] at isBound
      obtain ⟨first, isFirst, isBound⟩ := exists_of_bind_eq_ok isBound
      obtain ⟨others, areOthers, same⟩ := exists_of_bind_eq_ok isBound
      cases same
      have counted := inductionHypothesis
        (fun other member => each other (List.mem_cons_of_mem _ member)) areOthers
      cases first with
      | none => exact absurd isFirst (each term (List.mem_cons_self ..))
      | some expression => simp [counted]

theorem length_of_bindAll {terms : List Condition} (each : ∀ term ∈ terms, repository.Binds term)
    {found : Option (List Expression)} (isBound : repository.bindAll terms = .ok found) :
    ∃ bound, found = some bound ∧ bound.length = terms.length := by
  induction terms generalizing found with
  | nil =>
      cases isBound
      exact ⟨[], rfl, rfl⟩
  | cons term rest inductionHypothesis =>
      rw [bindAll] at isBound
      obtain ⟨first, isFirst, isBound⟩ := exists_of_bind_eq_ok isBound
      cases first with
      | none => exact absurd isFirst (each term (List.mem_cons_self ..))
      | some expression =>
          obtain ⟨others, areOthers, same⟩ := exists_of_bind_eq_ok isBound
          cases same
          obtain ⟨bound, rfl, counted⟩ := inductionHypothesis
            (fun other member => each other (List.mem_cons_of_mem _ member)) areOthers
          exact ⟨expression :: bound, rfl, by simp [counted]⟩

theorem joinTerms_ne_none {join : List Expression → Expression} {empty : Option Expression}
    {terms : List Expression} (some : terms ≠ []) : joinTerms join empty terms ≠ none := by
  match terms, some with
  | [term], _ => exact Option.some_ne_none term
  | _ :: _ :: _, _ => exact Option.some_ne_none _

/-- A condition that joins something everywhere is not bound to nothing. -/
theorem binds_of_joined {condition : Condition} (joined : condition.Joined) :
    repository.Binds condition := by
  induction joined with
  | any some _ each =>
      intro isBound
      rw [bindCondition] at isBound
      obtain ⟨bound, areBound, same⟩ := exists_of_bind_eq_ok isBound
      have counted := length_of_bindAny each areBound
      refine joinTerms_ne_none (fun none => some ?_) (Except.ok.inj same)
      rw [none] at counted
      exact List.length_eq_zero_iff.mp counted.symm
  | all some _ each =>
      intro isBound
      rw [bindCondition] at isBound
      obtain ⟨found, areBound, same⟩ := exists_of_bind_eq_ok isBound
      obtain ⟨bound, rfl, counted⟩ := length_of_bindAll each areBound
      refine joinTerms_ne_none (fun none => some ?_) (Except.ok.inj same)
      rw [none] at counted
      exact List.length_eq_zero_iff.mp counted.symm
  | negation _ _ =>
      intro isBound
      rw [bindCondition] at isBound
      obtain ⟨found, -, same⟩ := exists_of_bind_eq_ok isBound
      cases found <;> cases same
  | predicate identifier =>
      intro isBound
      rw [bindCondition] at isBound
      obtain ⟨expression, -, same⟩ := exists_of_map_eq_ok isBound
      cases same
  | relation path relation literals =>
      intro isBound
      rw [bindCondition] at isBound
      obtain ⟨boundPath, -, isBound⟩ := exists_of_bind_eq_ok isBound
      obtain ⟨operands, -, same⟩ := exists_of_bind_eq_ok isBound
      cases same
  | application path mode _ binds =>
      intro isBound
      rw [bindCondition] at isBound
      obtain ⟨boundPath, -, isBound⟩ := exists_of_bind_eq_ok isBound
      obtain ⟨found, isFound, same⟩ := exists_of_bind_eq_ok isBound
      cases found with
      | none => exact binds isFound
      | some expression => cases same

/-! ## Answers on a node -/

theorem map_bind {ε α β γ : Type} (first : Except ε α) (next : α → Except ε β) (change : β → γ) :
    (first >>= next).map change = first >>= fun middle => (next middle).map change := by
  cases first <;> rfl

/-- The answer of a bound condition on a node. -/
def judge (repository : Repository) (expression : Expression) (id : NodeId) :
    Except Fault Bool :=
  (NodeExecutor.compile repository expression).map (·.accepts id)

/-- The answer on a node of a condition that is bound and compiled for it. -/
def examine (repository : Repository) (condition : Condition) (id : NodeId) : Except Fault Bool :=
  repository.satisfies ⟨"", some condition, none⟩ id

variable (id : NodeId)

theorem judge_relation (path : BoundPath) (relation : Relation) (operands : List Operand) :
    repository.judge (.relation path relation operands) id =
      .ok (NodeExecutor.relates repository path relation operands id) := rfl

theorem judge_application (path : BoundPath) (mode : MatchMode) (body : Expression) :
    repository.judge (.application path mode body) id =
      (NodeExecutor.compile repository body).map fun inner =>
        NodeExecutor.applies repository.graph path mode inner.accepts id := by
  rw [judge, NodeExecutor.compile_application, map_bind]
  cases NodeExecutor.compile repository body <;> rfl

theorem judge_application_opposite (path : BoundPath) (mode : MatchMode) (body : Expression) :
    repository.judge (.application path mode.opposite (.negation body)) id =
      (repository.judge (.application path mode body) id).map not := by
  rw [judge_application, judge_application, NodeExecutor.compile_negation]
  cases NodeExecutor.compile repository body with
  | error fault => rfl
  | ok inner =>
      exact congrArg Except.ok (NodeExecutor.applies_opposite repository.graph path mode _ id)

theorem examine_eq (condition : Condition) :
    repository.examine condition id =
      repository.bindCondition condition >>= fun bound =>
        repository.judge (bound.getD .nothing) id := by
  simp only [examine, satisfies, compile, bind]
  cases repository.bindCondition condition <;> rfl

theorem examine_relation (path : List PathStep) (relation : Relation) (literals : List Literal) :
    repository.examine (.relation path relation literals) id =
      BoundPath.resolve repository.graph path false >>= fun boundPath =>
        (repository.bindOperands boundPath.valueType literals).map fun operands =>
          NodeExecutor.relates repository boundPath relation operands id := by
  rw [examine_eq, bindCondition]
  cases BoundPath.resolve repository.graph path false with
  | error fault => rfl
  | ok boundPath =>
      simp only [ok_bind]
      cases repository.bindOperands boundPath.valueType literals <;> rfl

theorem examine_relation_opposite (path : List PathStep) (mode : MatchMode)
    (literals : List Literal) :
    repository.examine (.relation path ⟨some mode.opposite, .unequal⟩ literals) id =
      (repository.examine (.relation path ⟨some mode, .equal⟩ literals) id).map not := by
  rw [examine_relation, examine_relation, map_bind]
  cases BoundPath.resolve repository.graph path false with
  | error fault => rfl
  | ok boundPath =>
      simp only [ok_bind]
      cases repository.bindOperands boundPath.valueType literals with
      | error fault => rfl
      | ok operands =>
          exact congrArg Except.ok
            (NodeExecutor.relates_unequal repository boundPath mode operands id)

theorem examine_application_opposite (path : List PathStep) (mode : MatchMode)
    {body : Condition} (binds : repository.Binds body) :
    repository.examine (.application path mode.opposite (.negation body)) id =
      (repository.examine (.application path mode body) id).map not := by
  rw [examine_eq, examine_eq, bindCondition, bindCondition, bindCondition]
  cases BoundPath.resolve repository.graph path true with
  | error fault => rfl
  | ok boundPath =>
      cases isBound : repository.bindCondition body with
      | error fault => rfl
      | ok found =>
          cases found with
          | none => exact absurd isBound binds
          | some expression => exact judge_application_opposite id boundPath mode expression

/-! ## Single right-hand sides -/

theorem forall₂_of_bindOperands {type : Option DataType} {literals : List Literal}
    {operands : List Operand} (bound : repository.bindOperands type literals = .ok operands) :
    List.Forall₂ (fun literal operand => repository.bindOperands type [literal] = .ok [operand])
      literals operands := by
  induction literals generalizing operands with
  | nil =>
      cases bound
      exact .nil
  | cons literal rest inductionHypothesis =>
      rw [bindOperands] at bound
      obtain ⟨operand, isOperand, bound⟩ := exists_of_bind_eq_ok bound
      obtain ⟨others, areOthers, same⟩ := exists_of_bind_eq_ok bound
      cases same
      refine .cons ?_ (inductionHypothesis areOthers)
      rw [bindOperands, isOperand]
      rfl

/-- Where a relation answers, it was bound, and what it is bound to with one of its right-hand
sides alone is one part of it. -/
theorem exists_of_examine_relation {path : List PathStep} {relation : Relation}
    {literals : List Literal} {answer : Bool}
    (answered : repository.examine (.relation path relation literals) id = .ok answer) :
    ∃ boundPath operands,
      NodeExecutor.relates repository boundPath relation operands id = answer ∧
      List.Forall₂ (fun literal operand =>
        repository.examine (.relation path relation [literal]) id =
          .ok (NodeExecutor.relates repository boundPath relation [operand] id))
        literals operands := by
  rw [examine_relation] at answered
  obtain ⟨boundPath, resolved, answered⟩ := exists_of_bind_eq_ok answered
  obtain ⟨operands, bound, isAnswer⟩ := exists_of_map_eq_ok answered
  refine ⟨boundPath, operands, isAnswer, (forall₂_of_bindOperands bound).imp ?_⟩
  intro literal operand alone
  rw [examine_relation, resolved, ok_bind, alone]
  rfl

theorem examine_any_equal {path : List PathStep} {mode : Option MatchMode}
    {literals : List Literal} {answer : Bool} (isAny : Relation.effectiveMode ⟨mode, .equal⟩ = .any)
    (answered : repository.examine (.relation path ⟨mode, .equal⟩ literals) id = .ok answer) :
    answer = true ↔ ∃ literal ∈ literals,
      repository.examine (.relation path ⟨mode, .equal⟩ [literal]) id = .ok true := by
  obtain ⟨boundPath, operands, rfl, alone⟩ := exists_of_examine_relation id answered
  rw [NodeExecutor.relates_any_equal repository boundPath isAny]
  clear answered
  induction alone with
  | nil => simp
  | cons first _ inductionHypothesis => simp [first, inductionHypothesis]

theorem examine_all_unequal {path : List PathStep} {literals : List Literal} {answer : Bool}
    (answered :
      repository.examine (.relation path ⟨some .all, .unequal⟩ literals) id = .ok answer) :
    answer = true ↔ ∀ literal ∈ literals,
      repository.examine (.relation path ⟨some .all, .unequal⟩ [literal]) id = .ok true := by
  obtain ⟨boundPath, operands, rfl, alone⟩ := exists_of_examine_relation id answered
  rw [NodeExecutor.relates_all_unequal]
  clear answered
  induction alone with
  | nil => simp
  | cons first _ inductionHypothesis => simp [first, inductionHypothesis]

theorem eq_map_not {ε : Type} {first second : Except ε Bool} (opposite : first = second.map not) :
    second = first.map not := by
  rw [opposite]
  cases second with
  | error fault => rfl
  | ok answer => exact congrArg Except.ok (Bool.not_not answer).symm

/-- On every node, whether all differ is the opposite of whether any equals, whether any differs
that of whether all equal, and whether all satisfy a condition that of whether any satisfies its
negation.  Any value equals one of several right-hand sides if it equals any one of them alone,
and all values differ from all of them if they differ from each one alone.  This is so of what is
bound, whatever it was bound to, and of what is written, where it can be bound. -/
theorem modes_opposed (repository : Repository) (id : NodeId) :
    (∀ path operands, ∃ anyEqual allEqual,
      repository.judge (.relation path ⟨some .any, .equal⟩ operands) id = .ok anyEqual ∧
        repository.judge (.relation path ⟨some .all, .unequal⟩ operands) id = .ok (!anyEqual) ∧
        repository.judge (.relation path ⟨some .all, .equal⟩ operands) id = .ok allEqual ∧
        repository.judge (.relation path ⟨some .any, .unequal⟩ operands) id = .ok (!allEqual)) ∧
      (∀ path body, repository.judge (.application path .all body) id =
        (repository.judge (.application path .any (.negation body)) id).map not) ∧
      (∀ path mode operands, Relation.effectiveMode ⟨mode, .equal⟩ = .any →
        (repository.judge (.relation path ⟨mode, .equal⟩ operands) id = .ok true ↔
          ∃ operand ∈ operands,
            repository.judge (.relation path ⟨mode, .equal⟩ [operand]) id = .ok true)) ∧
      (∀ path operands,
        repository.judge (.relation path ⟨some .all, .unequal⟩ operands) id = .ok true ↔
          ∀ operand ∈ operands,
            repository.judge (.relation path ⟨some .all, .unequal⟩ [operand]) id = .ok true) ∧
      (∀ path literals,
        repository.examine (.relation path ⟨some .all, .unequal⟩ literals) id =
            (repository.examine (.relation path ⟨some .any, .equal⟩ literals) id).map not ∧
          repository.examine (.relation path ⟨some .any, .unequal⟩ literals) id =
            (repository.examine (.relation path ⟨some .all, .equal⟩ literals) id).map not) ∧
      (∀ path body, body.Joined → repository.examine (.application path .all body) id =
        (repository.examine (.application path .any (.negation body)) id).map not) ∧
      (∀ path mode literals answer, Relation.effectiveMode ⟨mode, .equal⟩ = .any →
        repository.examine (.relation path ⟨mode, .equal⟩ literals) id = .ok answer →
          (answer = true ↔ ∃ literal ∈ literals,
            repository.examine (.relation path ⟨mode, .equal⟩ [literal]) id = .ok true)) ∧
      ∀ path literals answer,
        repository.examine (.relation path ⟨some .all, .unequal⟩ literals) id = .ok answer →
          (answer = true ↔ ∀ literal ∈ literals,
            repository.examine (.relation path ⟨some .all, .unequal⟩ [literal]) id = .ok true) := by
  refine ⟨fun path operands => ⟨_, _, rfl, ?_, rfl, ?_⟩, fun path body => ?_,
    fun path mode operands isAny => ?_, fun path operands => ?_, fun path literals => ?_,
    fun path body joined => ?_, fun path mode literals answer => examine_any_equal id,
    fun path literals answer => examine_all_unequal id⟩
  · exact congrArg Except.ok (NodeExecutor.relates_unequal repository path .any operands id)
  · exact congrArg Except.ok (NodeExecutor.relates_unequal repository path .all operands id)
  · exact eq_map_not (judge_application_opposite id path .all body)
  · simp only [judge_relation, Except.ok.injEq]
    exact NodeExecutor.relates_any_equal repository path isAny operands id
  · simp only [judge_relation, Except.ok.injEq]
    exact NodeExecutor.relates_all_unequal repository path operands id
  · exact ⟨examine_relation_opposite id path .any literals,
      examine_relation_opposite id path .all literals⟩
  · exact eq_map_not (examine_application_opposite id path .all (binds_of_joined joined))

/-- A task with two sizes and a next task, which has none. -/
def sizedTasks : Repository :=
  Operation.run
    [.addNodeType "Task" ⟨none, "", [("next", .text "Task"),
        ("sizes", .object [("type", .text "integer"), ("list", .boolean true)])]⟩,
      .mutate (.addNode ⟨0⟩ "a"), .mutate (.addNode ⟨0⟩ "b"),
      .mutate (.setPropertyNamed ⟨0⟩ "next" (.node ⟨1⟩)),
      .mutate (.setPropertyNamed ⟨0⟩ "sizes" (.list [.integer 1, .integer 2]))]
    .empty

/-- The next of the first task is a task, so that none is something else; and one of its sizes is
two, so that not all of them differ from two. -/
theorem modes_opposed_sizedTasks :
    sizedTasks.examine
        (.application [⟨false, "next"⟩] .any (.negation (.predicate (.name "Task")))) ⟨0⟩ =
          .ok false ∧
      sizedTasks.examine (.relation [⟨false, "sizes"⟩] ⟨some .all, .unequal⟩
        [.symbol "5", .symbol "2"]) ⟨0⟩ = .ok false ∧
      ∃ literal ∈ [Literal.symbol "5", .symbol "2"],
        sizedTasks.examine (.relation [⟨false, "sizes"⟩] ⟨some .any, .equal⟩ [literal]) ⟨0⟩ =
          .ok true := by
  have isTask : sizedTasks.examine (.application [⟨false, "next"⟩] .all (.predicate (.name "Task")))
      ⟨0⟩ = .ok true := eq_ok_of_toOption (by decide)
  have hasSize : sizedTasks.examine (.relation [⟨false, "sizes"⟩] ⟨some .any, .equal⟩
      [.symbol "5", .symbol "2"]) ⟨0⟩ = .ok true := eq_ok_of_toOption (by decide)
  obtain ⟨-, -, -, -, related, applied, several, -⟩ := modes_opposed sizedTasks ⟨0⟩
  refine ⟨?_, ?_, ?_⟩
  · rw [eq_map_not (applied [⟨false, "next"⟩] _ (.predicate (.name "Task"))), isTask]
    rfl
  · rw [(related [⟨false, "sizes"⟩] _).1, hasSize]
    rfl
  · exact (several [⟨false, "sizes"⟩] (some .any) _ true rfl hasSize).mp rfl

end Repository

end LifecycleGraph
