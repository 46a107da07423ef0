import LifecycleGraph.Proofs.Query.Leaf
import LifecycleGraph.Proofs.Query.Parser

/-!
# The meaning of queries

A condition is evaluated on a node along its tree, without binding, planning or
indices.  What a condition is bound to and compiled to accepts exactly the nodes
on which the condition holds.
-/

set_option autoImplicit false

namespace LifecycleGraph

/-! ## Evaluation along the tree -/

/-- All of some values pass a test, or any of them. -/
def MatchMode.over {α : Type} (mode : MatchMode) (values : List α) (test : α → Bool) : Bool :=
  match mode with
  | .all => values.all test
  | .any => values.any test

namespace Repository

/-- The value of a right-hand side for a type, if its text is one of that type. -/
def literalValue? (repository : Repository) (type : DataType) (literal : Literal) : Option Value :=
  (repository.decodeText literal.text type).toOption

/-- A value satisfies a comparison: it equals some right-hand side, differs from
all of them, or stands in the order to the first. -/
def meets (repository : Repository) (comparison : Comparison) (literals : List Literal)
    (type : DataType) (value : Value) : Bool :=
  match comparison with
  | .equal =>
      literals.any fun literal => (repository.literalValue? type literal).any value.looseEq
  | .unequal =>
      literals.all fun literal =>
        (repository.literalValue? type literal).all fun right => !value.looseEq right
  | comparison =>
      (literals.head?.bind (repository.literalValue? type)).any fun right =>
        (value.compare? right).any (NodeExecutor.ordered comparison)

/-- The base chain of a node comes to a type. -/
def isOfType (repository : Repository) (type : TypeId) (id : NodeId) : Bool :=
  (repository.graph.node? id).any fun node => repository.graph.isSubtype node.type type

def isInState (repository : Repository) (state : StateId) (id : NodeId) : Bool :=
  (repository.graph.node? id).any fun node => node.state == some state

/-- The flat list of a node has a tag that is a kind of the given one. -/
def isTagged (repository : Repository) (tag : TagId) (id : NodeId) : Bool :=
  (repository.graph.node? id).any fun node =>
    node.tags.any fun held => repository.graph.tags.isa held tag

/-- The node is the only one of a name. -/
def isNamed (repository : Repository) (name : String) (type : Option TypeId) (id : NodeId) : Bool :=
  match repository.graph.nodeNamed? name type with
  | .ok (some named) => id == named
  | _ => false

/-- A predicate holds of a node.  A plain name is that of a type, or else of a
state, or else of a node, or else of a tag. -/
def isCalled (repository : Repository) (identifier : Identifier) (id : NodeId) : Bool :=
  let tagged (name : String) : Bool :=
    match repository.graph.tags.lookup? name with
    | some tag => repository.isTagged tag id
    | none => false
  match identifier with
  | .name name =>
      match repository.graph.typeId? name with
      | some type => repository.isOfType type id
      | none =>
          match repository.graph.stateId? name with
          | some state => repository.isInState state id
          | none =>
              match repository.graph.nodeNamed? name none with
              | .ok none => tagged name
              | _ => repository.isNamed name none id
  | .dotted names => tagged (Text.joinWith "." names)
  | .qualified ns name =>
      match repository.graph.typeId? ns with
      | some type => repository.isNamed name (some type) id
      | none => false

mutual
/-- A condition holds of a node. -/
def holds (repository : Repository) : Condition → NodeId → Bool
  | .any terms, id => holdsAny repository terms id
  | .all terms, id => holdsAll repository terms id
  | .negation term, id => !holds repository term id
  | .predicate identifier, id => repository.isCalled identifier id
  | .relation path relation literals, id =>
      match BoundPath.resolve repository.graph path false with
      | .ok path =>
          MatchMode.over relation.effectiveMode (path.typedValues repository.graph id)
            fun (value, declared) =>
              repository.meets relation.comparison literals (path.valueType.getD declared) value
      | .error _ => false
  | .application path mode body, id =>
      match BoundPath.resolve repository.graph path true with
      | .ok path =>
          MatchMode.over mode (path.nodes repository.graph id) fun reached =>
            holds repository body reached
      | .error _ => false

def holdsAny (repository : Repository) : List Condition → NodeId → Bool
  | [], _ => false
  | term :: rest, id => holds repository term id || holdsAny repository rest id

def holdsAll (repository : Repository) : List Condition → NodeId → Bool
  | [], _ => true
  | term :: rest, id => holds repository term id && holdsAll repository rest id
end

section Equations

variable (repository : Repository) (id : NodeId)

theorem isCalled_name (name : String) :
    repository.isCalled (.name name) id =
      match repository.graph.typeId? name with
      | some type => repository.isOfType type id
      | none =>
          match repository.graph.stateId? name with
          | some state => repository.isInState state id
          | none =>
              match repository.graph.nodeNamed? name none with
              | .ok none =>
                  match repository.graph.tags.lookup? name with
                  | some tag => repository.isTagged tag id
                  | none => false
              | _ => repository.isNamed name none id := rfl

theorem isCalled_dotted (names : List String) :
    repository.isCalled (.dotted names) id =
      match repository.graph.tags.lookup? (Text.joinWith "." names) with
      | some tag => repository.isTagged tag id
      | none => false := rfl

theorem isCalled_qualified (ns name : String) :
    repository.isCalled (.qualified ns name) id =
      match repository.graph.typeId? ns with
      | some type => repository.isNamed name (some type) id
      | none => false := rfl

theorem holds_any (terms : List Condition) :
    repository.holds (.any terms) id = repository.holdsAny terms id := rfl

theorem holds_all (terms : List Condition) :
    repository.holds (.all terms) id = repository.holdsAll terms id := rfl

theorem holds_negation (term : Condition) :
    repository.holds (.negation term) id = !repository.holds term id := rfl

theorem holds_predicate (identifier : Identifier) :
    repository.holds (.predicate identifier) id = repository.isCalled identifier id := rfl

theorem holds_relation (path : List PathStep) (relation : Relation) (literals : List Literal) :
    repository.holds (.relation path relation literals) id =
      match BoundPath.resolve repository.graph path false with
      | .ok path =>
          MatchMode.over relation.effectiveMode (path.typedValues repository.graph id)
            fun (value, declared) =>
              repository.meets relation.comparison literals (path.valueType.getD declared) value
      | .error _ => false := rfl

theorem holds_application (path : List PathStep) (mode : MatchMode) (body : Condition) :
    repository.holds (.application path mode body) id =
      match BoundPath.resolve repository.graph path true with
      | .ok path =>
          MatchMode.over mode (path.nodes repository.graph id) fun reached =>
            repository.holds body reached
      | .error _ => false := rfl

theorem holdsAny_cons (term : Condition) (rest : List Condition) :
    repository.holdsAny (term :: rest) id =
      (repository.holds term id || repository.holdsAny rest id) := rfl

theorem holdsAll_cons (term : Condition) (rest : List Condition) :
    repository.holdsAll (term :: rest) id =
      (repository.holds term id && repository.holdsAll rest id) := rfl

end Equations

/-- A query without a condition holds of every node. -/
def holdsQuery (repository : Repository) (condition : Option Condition) (id : NodeId) : Bool :=
  match condition with
  | some condition => repository.holds condition id
  | none => (repository.graph.node? id).isSome

/-! ## Binding and compiling keep the meaning -/

/-- An executor accepts the nodes on which a condition holds, and enumerates as it
accepts. -/
structure Realises (repository : Repository) (condition : Condition) (executor : NodeExecutor) :
    Prop where
  lawful : executor.Lawful repository.graph.Live
  accepts : ∀ id, executor.accepts id = repository.holds condition id

/-- An expression is compiled to what realises a condition. -/
def Expresses (repository : Repository) (condition : Condition) (expression : Expression) : Prop :=
  ∀ executor, NodeExecutor.compile repository expression = .ok executor →
    repository.Realises condition executor

variable {repository : Repository}

/-! ### Relations -/

theorem operandValue?_of_bindOperand {shared : Option DataType} {literal : Literal}
    {operand : Operand} (bound : repository.bindOperand shared literal = .ok operand)
    (declared : DataType) :
    NodeExecutor.operandValue? repository declared operand =
      repository.literalValue? (shared.getD declared) literal := by
  unfold bindOperand at bound
  split at bound
  · cases bound
    rfl
  · split at bound
    · rename_i type value decoded
      cases bound
      simp only [NodeExecutor.operandValue?, literalValue?, Option.getD_some, decoded,
        Except.toOption]
    · cases bound

theorem operandValues_of_bindOperands {shared : Option DataType} {literals : List Literal}
    {operands : List Operand} (bound : repository.bindOperands shared literals = .ok operands)
    (declared : DataType) :
    operands.map (NodeExecutor.operandValue? repository declared) =
      literals.map (repository.literalValue? (shared.getD declared)) := by
  induction literals generalizing operands with
  | nil =>
      cases bound
      rfl
  | cons literal rest inductionHypothesis =>
      rw [bindOperands] at bound
      obtain ⟨operand, isOperand, bound⟩ := exists_of_bind_eq_ok bound
      obtain ⟨others, areOthers, bound⟩ := exists_of_bind_eq_ok bound
      cases bound
      rw [List.map_cons, List.map_cons, inductionHypothesis areOthers,
        operandValue?_of_bindOperand isOperand]

theorem compares_eq_meets {shared : Option DataType} {literals : List Literal}
    {operands : List Operand} (bound : repository.bindOperands shared literals = .ok operands)
    (comparison : Comparison) (value : Value) (declared : DataType) :
    NodeExecutor.compares repository comparison operands value declared =
      repository.meets comparison literals (shared.getD declared) value := by
  have same := operandValues_of_bindOperands bound declared
  have anyOperand (test : Value → Bool) :
      (operands.any fun operand =>
        (NodeExecutor.operandValue? repository declared operand).any test) =
        literals.any fun literal =>
          (repository.literalValue? (shared.getD declared) literal).any test := by
    have mapped := congrArg (List.any · (Option.any test)) same
    simpa only [List.any_map, Function.comp_def] using mapped
  have allOperands (test : Value → Bool) :
      (operands.all fun operand =>
        (NodeExecutor.operandValue? repository declared operand).all test) =
        literals.all fun literal =>
          (repository.literalValue? (shared.getD declared) literal).all test := by
    have mapped := congrArg (List.all · (Option.all test)) same
    simpa only [List.all_map, Function.comp_def] using mapped
  have first : operands.head?.bind (NodeExecutor.operandValue? repository declared) =
      literals.head?.bind (repository.literalValue? (shared.getD declared)) := by
    have mapped := congrArg (fun values => values.head?.bind id) same
    simpa only [List.head?_map, Option.bind_map, Function.id_comp] using mapped
  cases comparison with
  | equal => exact anyOperand value.looseEq
  | unequal => exact allOperands fun right => !value.looseEq right
  | less | lessOrEqual | greater | greaterOrEqual =>
      simp only [NodeExecutor.compares, meets, first]
      cases literals.head?.bind (repository.literalValue? (shared.getD declared)) <;> rfl

theorem expresses_relation {path : List PathStep} {boundPath : BoundPath} {relation : Relation}
    {literals : List Literal} {operands : List Operand}
    (resolved : BoundPath.resolve repository.graph path false = .ok boundPath)
    (bound : repository.bindOperands boundPath.valueType literals = .ok operands) :
    repository.Expresses (.relation path relation literals)
      (.relation boundPath relation operands) := by
  intro executor compiled
  rw [NodeExecutor.compile_relation] at compiled
  cases compiled
  refine ⟨Executor.lawful_predicate _, fun id => ?_⟩
  simp only [holds_relation, resolved]
  have compared (value : Value × DataType) :=
    compares_eq_meets bound relation.comparison value.1 value.2
  have unfolded : Executor.accepts (ε := Empty) (Executor.predicate (Executor.silent
      (NodeExecutor.relates repository boundPath relation operands))) id =
        NodeExecutor.relates repository boundPath relation operands id := rfl
  rw [unfolded, NodeExecutor.relates]
  cases relation.effectiveMode <;> simp only [MatchMode.over, compared]

theorem expresses_application {path : List PathStep} {boundPath : BoundPath} {mode : MatchMode}
    {body : Condition} {expression : Expression}
    (resolved : BoundPath.resolve repository.graph path true = .ok boundPath)
    (expresses : repository.Expresses body expression) :
    repository.Expresses (.application path mode body)
      (.application boundPath mode expression) := by
  intro executor compiled
  rw [NodeExecutor.compile_application] at compiled
  obtain ⟨inner, isInner, compiled⟩ := exists_of_bind_eq_ok compiled
  cases compiled
  refine ⟨Executor.lawful_predicate _, fun id => ?_⟩
  simp only [holds_application, resolved]
  have unfolded : Executor.accepts (ε := Empty) (Executor.predicate (Executor.silent
      (NodeExecutor.applies repository.graph boundPath mode inner.accepts))) id =
        NodeExecutor.applies repository.graph boundPath mode inner.accepts id := rfl
  have same : inner.accepts = repository.holds body :=
    funext (expresses inner isInner).accepts
  rw [unfolded, same]
  cases mode <;> rfl

/-! ### Predicates -/

theorem expresses_type (listed : repository.graph.Listed) {name : String} {type : TypeId}
    (isType : repository.graph.typeId? name = some type) :
    repository.Expresses (.predicate (.name name)) (.type type name) := by
  intro executor compiled
  rw [NodeExecutor.compile_type] at compiled
  split at compiled
  · cases compiled
    refine ⟨NodeExecutor.lawful_ofType listed type, fun id => ?_⟩
    rw [NodeExecutor.accepts_ofType listed]
    simp only [holds_predicate, isCalled_name, isType, isOfType]
  · cases compiled

theorem expresses_state (listed : repository.graph.Listed) {name : String} {state : StateId}
    (notType : repository.graph.typeId? name = none)
    (isState : repository.graph.stateId? name = some state) :
    repository.Expresses (.predicate (.name name)) (.state state name) := by
  intro executor compiled
  rw [NodeExecutor.compile_state] at compiled
  split at compiled
  · cases compiled
    refine ⟨NodeExecutor.lawful_ofState listed state, fun id => ?_⟩
    simp only [holds_predicate, isCalled_name, notType, isState, isInState,
      NodeExecutor.accepts_ofState]
  · cases compiled

theorem expresses_bare (listed : repository.graph.Listed) {name : String}
    (notType : repository.graph.typeId? name = none)
    (notState : repository.graph.stateId? name = none) :
    repository.Expresses (.predicate (.name name)) (.name (.bare name)) := by
  intro executor compiled
  rw [NodeExecutor.compile_name] at compiled
  unfold NodeExecutor.ofReference at compiled
  obtain ⟨found, isFound, compiled⟩ := exists_of_bind_eq_ok compiled
  cases found with
  | some node =>
      cases compiled
      refine ⟨NodeExecutor.lawful_ofNode (listed.live_of_nodeNamed? isFound), fun id => ?_⟩
      simp only [holds_predicate, isCalled_name, notType, notState, isFound, isNamed,
        NodeExecutor.accepts_ofNode]
  | none =>
      simp only [notState] at compiled
      split at compiled
      · rename_i tag isTag
        cases compiled
        refine ⟨NodeExecutor.lawful_ofTag listed tag, fun id => ?_⟩
        simp only [holds_predicate, isCalled_name, notType, notState, isFound, isTag, isTagged,
          NodeExecutor.accepts_ofTag]
      · cases compiled

theorem expresses_dotted (listed : repository.graph.Listed) (names : List String) :
    repository.Expresses (.predicate (.dotted names)) (.name (.dotted names)) := by
  intro executor compiled
  rw [NodeExecutor.compile_name] at compiled
  unfold NodeExecutor.ofReference at compiled
  simp only at compiled
  split at compiled
  · rename_i tag isTag
    cases compiled
    refine ⟨NodeExecutor.lawful_ofTag listed tag, fun id => ?_⟩
    simp only [holds_predicate, isCalled_dotted, isTag, isTagged, NodeExecutor.accepts_ofTag]
  · cases compiled

theorem expresses_qualified (listed : repository.graph.Listed) {ns name : String} {type : TypeId}
    (isType : repository.graph.typeId? ns = some type) :
    repository.Expresses (.predicate (.qualified ns name)) (.name (.qualified type ns name)) := by
  intro executor compiled
  rw [NodeExecutor.compile_name] at compiled
  unfold NodeExecutor.ofReference at compiled
  obtain ⟨found, isFound, compiled⟩ := exists_of_bind_eq_ok compiled
  cases found with
  | some node =>
      cases compiled
      refine ⟨NodeExecutor.lawful_ofNode (listed.live_of_nodeNamed? isFound), fun id => ?_⟩
      simp only [holds_predicate, isCalled_qualified, isType, isFound, isNamed,
        NodeExecutor.accepts_ofNode]
  | none => cases compiled

theorem expresses_predicate (listed : repository.graph.Listed) {identifier : Identifier}
    {expression : Expression} (bound : repository.bindIdentifier identifier = .ok expression) :
    repository.Expresses (.predicate identifier) expression := by
  cases identifier with
  | name name =>
      cases isType : repository.graph.typeId? name with
      | some type =>
          simp only [bindIdentifier, isType] at bound
          cases bound
          exact expresses_type listed isType
      | none =>
          cases isState : repository.graph.stateId? name with
          | some state =>
              simp only [bindIdentifier, isType, isState] at bound
              cases bound
              exact expresses_state listed isType isState
          | none =>
              simp only [bindIdentifier, isType, isState] at bound
              cases bound
              exact expresses_bare listed isType isState
  | dotted names =>
      cases bound
      exact expresses_dotted listed names
  | qualified ns name =>
      cases isType : repository.graph.typeId? ns with
      | some type =>
          simp only [bindIdentifier, isType] at bound
          cases bound
          exact expresses_qualified listed isType
      | none =>
          simp only [bindIdentifier, isType] at bound
          cases bound

/-! ### Connectives -/

theorem realises_compileAll {terms : List Condition} {expressions : List Expression}
    (expresses : List.Forall₂ repository.Expresses terms expressions)
    {executors : List NodeExecutor}
    (compiled : NodeExecutor.compileAll repository expressions = .ok executors) :
    List.Forall₂ repository.Realises terms executors := by
  induction expresses generalizing executors with
  | nil =>
      cases compiled
      exact .nil
  | cons first _ inductionHypothesis =>
      rw [NodeExecutor.compileAll_cons] at compiled
      obtain ⟨executor, isExecutor, compiled⟩ := exists_of_bind_eq_ok compiled
      obtain ⟨others, areOthers, compiled⟩ := exists_of_bind_eq_ok compiled
      cases compiled
      exact .cons (first executor isExecutor) (inductionHypothesis areOthers)

theorem lawful_of_realises {terms : List Condition} {executors : List NodeExecutor}
    (realises : List.Forall₂ repository.Realises terms executors) :
    ∀ executor ∈ executors, executor.Lawful repository.graph.Live := by
  induction realises with
  | nil => exact fun _ member => by cases member
  | cons first _ inductionHypothesis =>
      intro executor member
      rcases List.mem_cons.mp member with rfl | inRest
      · exact first.lawful
      · exact inductionHypothesis executor inRest

theorem any_of_realises {terms : List Condition} {executors : List NodeExecutor}
    (realises : List.Forall₂ repository.Realises terms executors) (id : NodeId) :
    (executors.any fun executor => executor.accepts id) = repository.holdsAny terms id := by
  induction realises with
  | nil => rfl
  | cons first _ inductionHypothesis =>
      rw [List.any_cons, first.accepts, inductionHypothesis, holdsAny_cons]

theorem all_of_realises {terms : List Condition} {executors : List NodeExecutor}
    (realises : List.Forall₂ repository.Realises terms executors) (id : NodeId) :
    (executors.all fun executor => executor.accepts id) = repository.holdsAll terms id := by
  induction realises with
  | nil => rfl
  | cons first _ inductionHypothesis =>
      rw [List.all_cons, first.accepts, inductionHypothesis, holdsAll_cons]

theorem expresses_any {terms : List Condition} {expressions : List Expression}
    (some : expressions ≠ []) (expresses : List.Forall₂ repository.Expresses terms expressions) :
    repository.Expresses (.any terms) (.any expressions) := by
  intro executor compiled
  rw [NodeExecutor.compile_any] at compiled
  obtain ⟨executors, areExecutors, compiled⟩ := exists_of_bind_eq_ok compiled
  have realises := realises_compileAll expresses areExecutors
  have notEmpty : executors.isEmpty = false := by
    cases realises with
    | nil => cases expresses; exact absurd rfl some
    | cons => rfl
  simp only [notEmpty, Bool.false_eq_true, if_false] at compiled
  cases compiled
  refine ⟨Executor.lawful_union (lawful_of_realises realises), fun id => ?_⟩
  rw [Executor.accepts_union, any_of_realises realises, holds_any]

theorem expresses_all {terms : List Condition} {expressions : List Expression}
    (some : expressions ≠ []) (expresses : List.Forall₂ repository.Expresses terms expressions) :
    repository.Expresses (.all terms) (.all expressions) := by
  intro executor compiled
  rw [NodeExecutor.compile_all] at compiled
  obtain ⟨executors, areExecutors, compiled⟩ := exists_of_bind_eq_ok compiled
  have realises := realises_compileAll expresses areExecutors
  have notNil : executors ≠ [] := by
    intro same
    obtain rfl := same
    cases realises
    cases expresses
    exact some rfl
  have notEmpty : executors.isEmpty = false := List.isEmpty_eq_false_iff.mpr notNil
  simp only [notEmpty, Bool.false_eq_true, if_false] at compiled
  cases compiled
  refine ⟨Executor.lawful_planned (lawful_of_realises realises), fun id => ?_⟩
  rw [Executor.accepts_planned notNil, all_of_realises realises, holds_all]

theorem expresses_single {term : Condition} {expression : Expression}
    (expresses : repository.Expresses term expression) :
    repository.Expresses (.any [term]) expression ∧
      repository.Expresses (.all [term]) expression := by
  refine ⟨fun executor compiled => ?_, fun executor compiled => ?_⟩
  · obtain ⟨lawful, accepts⟩ := expresses executor compiled
    refine ⟨lawful, fun id => (accepts id).trans ?_⟩
    exact (Bool.or_false _).symm
  · obtain ⟨lawful, accepts⟩ := expresses executor compiled
    refine ⟨lawful, fun id => (accepts id).trans ?_⟩
    exact (Bool.and_true _).symm

/-- What a condition is bound to is there, and expresses it. -/
def BoundTo (repository : Repository) (condition : Condition) : Prop :=
  ∀ bound, repository.bindCondition condition = .ok bound →
    ∃ expression, bound = some expression ∧ repository.Expresses condition expression

theorem expresses_bindAny {terms : List Condition} (each : ∀ term ∈ terms, repository.BoundTo term)
    {expressions : List Expression} (bound : repository.bindAny terms = .ok expressions) :
    List.Forall₂ repository.Expresses terms expressions := by
  induction terms generalizing expressions with
  | nil =>
      cases bound
      exact .nil
  | cons term rest inductionHypothesis =>
      rw [bindAny] at bound
      obtain ⟨first, isFirst, bound⟩ := exists_of_bind_eq_ok bound
      obtain ⟨others, areOthers, bound⟩ := exists_of_bind_eq_ok bound
      obtain ⟨expression, rfl, expresses⟩ := each term (List.mem_cons_self ..) first isFirst
      cases bound
      exact .cons expresses
        (inductionHypothesis (fun other inRest => each other (List.mem_cons_of_mem _ inRest))
          areOthers)

theorem expresses_bindAll {terms : List Condition} (each : ∀ term ∈ terms, repository.BoundTo term)
    {bound : Option (List Expression)} (isBound : repository.bindAll terms = .ok bound) :
    ∃ expressions, bound = some expressions ∧
      List.Forall₂ repository.Expresses terms expressions := by
  induction terms generalizing bound with
  | nil =>
      cases isBound
      exact ⟨[], rfl, .nil⟩
  | cons term rest inductionHypothesis =>
      rw [bindAll] at isBound
      obtain ⟨first, isFirst, isBound⟩ := exists_of_bind_eq_ok isBound
      obtain ⟨expression, rfl, expresses⟩ := each term (List.mem_cons_self ..) first isFirst
      obtain ⟨others, areOthers, isBound⟩ := exists_of_bind_eq_ok isBound
      obtain ⟨expressions, rfl, expressesRest⟩ := inductionHypothesis
        (fun other inRest => each other (List.mem_cons_of_mem _ inRest)) areOthers
      cases isBound
      exact ⟨expression :: expressions, rfl, .cons expresses expressesRest⟩

/-- A condition that joins something everywhere is bound to an expression of it. -/
theorem boundTo_of_joined (listed : repository.graph.Listed) {condition : Condition}
    (joined : condition.Joined) : repository.BoundTo condition := by
  -- By the way in which the condition is joined.  A disjunction of one term is bound to
  -- that term, which is why the terms must be known not to be empty.
  induction joined with
  | @any terms some _ inductionHypothesis =>
      intro bound isBound
      rw [bindCondition] at isBound
      obtain ⟨expressions, areBound, isBound⟩ := exists_of_bind_eq_ok isBound
      have expresses := expresses_bindAny inductionHypothesis areBound
      cases isBound
      cases expresses with
      | nil => exact absurd rfl some
      | cons first rest =>
          cases rest with
          | nil => exact ⟨_, rfl, (expresses_single first).1⟩
          | cons second others =>
              exact ⟨_, rfl, expresses_any (List.cons_ne_nil _ _)
                (.cons first (.cons second others))⟩
  | @all terms some _ inductionHypothesis =>
      intro bound isBound
      rw [bindCondition] at isBound
      obtain ⟨found, areBound, isBound⟩ := exists_of_bind_eq_ok isBound
      obtain ⟨expressions, rfl, expresses⟩ := expresses_bindAll inductionHypothesis areBound
      cases isBound
      cases expresses with
      | nil => exact absurd rfl some
      | cons first rest =>
          cases rest with
          | nil => exact ⟨_, rfl, (expresses_single first).2⟩
          | cons second others =>
              exact ⟨_, rfl, expresses_all (List.cons_ne_nil _ _)
                (.cons first (.cons second others))⟩
  | negation _ inductionHypothesis =>
      intro bound isBound
      rw [bindCondition] at isBound
      obtain ⟨inner, isInner, isBound⟩ := exists_of_bind_eq_ok isBound
      obtain ⟨expression, rfl, expresses⟩ := inductionHypothesis inner isInner
      cases isBound
      refine ⟨_, rfl, fun executor compiled => ?_⟩
      rw [NodeExecutor.compile_negation] at compiled
      obtain ⟨operand, isOperand, compiled⟩ := exists_of_bind_eq_ok compiled
      cases compiled
      refine ⟨Executor.lawful_complement operand, fun id => ?_⟩
      rw [Executor.accepts_complement, (expresses operand isOperand).accepts, holds_negation]
  | predicate identifier =>
      intro bound isBound
      rw [bindCondition] at isBound
      obtain ⟨expression, isExpression, rfl⟩ := exists_of_map_eq_ok isBound
      exact ⟨expression, rfl, expresses_predicate listed isExpression⟩
  | relation path relation literals =>
      intro bound isBound
      rw [bindCondition] at isBound
      obtain ⟨boundPath, resolved, isBound⟩ := exists_of_bind_eq_ok isBound
      obtain ⟨operands, areOperands, isBound⟩ := exists_of_bind_eq_ok isBound
      cases isBound
      exact ⟨_, rfl, expresses_relation resolved areOperands⟩
  | application path mode _ inductionHypothesis =>
      intro bound isBound
      rw [bindCondition] at isBound
      obtain ⟨boundPath, resolved, isBound⟩ := exists_of_bind_eq_ok isBound
      obtain ⟨inner, isInner, isBound⟩ := exists_of_bind_eq_ok isBound
      obtain ⟨expression, rfl, expresses⟩ := inductionHypothesis inner isInner
      cases isBound
      exact ⟨_, rfl, expresses_application resolved expresses⟩

end Repository

end LifecycleGraph
