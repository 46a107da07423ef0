import LifecycleGraph.Proofs.Engine.Commit
import LifecycleGraph.Proofs.Query.Executor
import LifecycleGraph.Query.Evaluation

/-!
# Conditions that look at no state

A bound condition without names of states reads the types, the names, the tags and the
values of nodes, which state changes leave as they are.  So it accepts the same nodes
whatever states they are in.  A right-hand side that is read anew is excluded, because
a converter may look at anything.
-/

set_option autoImplicit false

namespace LifecycleGraph

/-- Questions that read alike lead to answers that read alike, if the next ones do. -/
theorem map_bind_congr {ε α β γ δ : Type} {first second : Except ε α} {read : α → γ}
    {next otherNext : α → Except ε β} {readNext : β → δ}
    (alike : first.map read = second.map read)
    (onwards : ∀ one two, read one = read two →
      (next one).map readNext = (otherNext two).map readNext) :
    (first >>= next).map readNext = (second >>= otherNext).map readNext := by
  cases first with
  | error fault =>
      cases second with
      | error other => exact congrArg Except.error (Except.error.inj alike)
      | ok two => cases alike
  | ok one =>
      cases second with
      | error other => cases alike
      | ok two => exact onwards one two (Except.ok.inj alike)

def Operand.isLiteral : Operand → Bool
  | .literal .. => true
  | .deferred _ => false

mutual
/-- Whether states may matter to a bound condition. -/
def Expression.readsStates (graph : Graph) : Expression → Bool
  | .everything => false
  | .nothing => false
  | .all terms => Expression.someReadsStates graph terms
  | .any terms => Expression.someReadsStates graph terms
  | .negation term => term.readsStates graph
  | .type .. => false
  | .state .. => true
  | .name (.bare text) => (graph.stateId? text).isSome
  | .name (.dotted _) => false
  | .name (.qualified ..) => false
  | .relation _ _ operands => !operands.all Operand.isLiteral
  | .application _ _ body => body.readsStates graph

def Expression.someReadsStates (graph : Graph) : List Expression → Bool
  | [] => false
  | term :: rest => term.readsStates graph || Expression.someReadsStates graph rest
end

namespace Graph

/-- The second graph is the first one but for the states that its nodes are in. -/
structure Restated (old new : Graph) : Prop where
  contents : ∀ id, (new.node? id).map Node.stateless = (old.node? id).map Node.stateless
  others : new = { old with nodes := new.nodes, stateMembers := new.stateMembers }

theorem Moved.restated {old new : Graph} {moves : List Proposal} (moved : old.Moved moves new) :
    old.Restated new := ⟨moved.contents, moved.others⟩

namespace Restated

variable {old new : Graph} (restated : old.Restated new)

include restated

theorem types_eq : new.types = old.types := by rw [restated.others]

theorem tags_eq : new.tags = old.tags := by rw [restated.others]

/-- What is read of a node without its state is the same. -/
theorem map_node? {α : Type} (read : Node → α) (blind : ∀ node, read node.stateless = read node)
    (id : NodeId) : (new.node? id).map read = (old.node? id).map read := by
  have same := congrArg (Option.map read) (restated.contents id)
  simpa only [Option.map_map, Function.comp_def, blind] using same

theorem any_node? (read : Node → Bool) (blind : ∀ node, read node.stateless = read node)
    (id : NodeId) : (new.node? id).any read = (old.node? id).any read := by
  have same := congrArg (Option.any fun answer => answer) (restated.map_node? read blind id)
  simpa only [Option.any_map, Function.comp_def] using same

theorem isSome_node? (id : NodeId) : (new.node? id).isSome = (old.node? id).isSome := by
  have same := congrArg Option.isSome (restated.map_node? (fun _ => ()) (fun _ => rfl) id)
  simpa only [Option.isSome_map] using same

theorem nodeNamed?_eq (name : String) (type : Option TypeId) :
    new.nodeNamed? name type = old.nodeNamed? name type := by
  have unique (name : String) (types : List TypeId) :
      new.uniqueAmong name types = old.uniqueAmong name types := by
    rw [restated.others]
    rfl
  simp only [nodeNamed?, unique, typeId?_of_types restated.types_eq,
    subtypes_of_types restated.types_eq, restated.types_eq]

/-! ## Paths -/

theorem propertiesFor_eq (step : BoundStep) (type : TypeId) :
    step.propertiesFor new type = step.propertiesFor old type := by
  simp only [BoundStep.propertiesFor, isSubtype_of_types restated.types_eq,
    ancestors_of_types restated.types_eq]

theorem valuesOf_eq (step : BoundStep) (node : Node) (property : PropertyId) :
    step.valuesOf new node property = step.valuesOf old node property := by
  simp only [BoundStep.valuesOf, property?, type?, restated.types_eq]

theorem valuesAt_eq (step : BoundStep) (id : NodeId) :
    step.valuesAt new id = step.valuesAt old id := by
  have whole (graph : Graph) : step.valuesAt graph id = ((graph.node? id).map fun node =>
      (step.propertiesFor graph node.type).flatMap (step.valuesOf graph node)).getD [] := by
    rw [BoundStep.valuesAt]
    cases graph.node? id <;> rfl
  have values (node : Node) : step.valuesOf new node = step.valuesOf old node :=
    funext (restated.valuesOf_eq step node)
  simp only [whole, restated.propertiesFor_eq, values]
  rw [restated.map_node? (fun node =>
    (step.propertiesFor old node.type).flatMap (step.valuesOf old node)) fun _ => rfl]

theorem valuesFrom_eq (steps : List BoundStep) (nodes : List NodeId) :
    BoundPath.valuesFrom new steps nodes = BoundPath.valuesFrom old steps nodes := by
  induction steps generalizing nodes with
  | nil => rfl
  | cons step rest inductionHypothesis =>
      have here : step.valuesAt new = step.valuesAt old := funext (restated.valuesAt_eq step)
      cases rest with
      | nil => rw [BoundPath.valuesFrom, BoundPath.valuesFrom, here]
      | cons next rest =>
          rw [BoundPath.valuesFrom, BoundPath.valuesFrom, here, inductionHypothesis]

theorem typedValues_eq (path : BoundPath) (id : NodeId) :
    path.typedValues new id = path.typedValues old id :=
  restated.valuesFrom_eq path.steps [id]

theorem nodes_eq (path : BoundPath) : path.nodes new = path.nodes old := by
  funext id
  rw [BoundPath.nodes, BoundPath.nodes, restated.typedValues_eq]

/-! ## Names -/

open NodeExecutor

theorem accepts_ofType (type : TypeId) :
    (ofType new type).accepts = (ofType old type).accepts := by
  funext id
  refine (restated.any_node? (fun node => (new.subtypes type).contains node.type)
    (fun _ => rfl) id).trans ?_
  rw [subtypes_of_types restated.types_eq]
  rfl

theorem accepts_ofTag (tag : TagId) :
    (ofTag new tag).accepts = (ofTag old tag).accepts := by
  funext id
  refine (restated.any_node? (fun node => node.tags.any fun held => new.tags.isa held tag)
    (fun _ => rfl) id).trans ?_
  rw [restated.tags_eq]
  rfl

theorem accepts_ofReference (reference : NameReference)
    (blind : (Expression.name reference).readsStates old = false) :
    (ofReference new reference).map Executor.accepts =
      (ofReference old reference).map Executor.accepts := by
  cases reference with
  | qualified ns nsName name => rw [ofReference, ofReference, restated.nodeNamed?_eq]
  | dotted names =>
      rw [ofReference, ofReference, restated.tags_eq]
      split
      · exact congrArg Except.ok (restated.accepts_ofTag _)
      · rfl
  | bare name =>
      have noState : old.stateId? name = none := by
        rw [Expression.readsStates] at blind
        exact Option.isNone_iff_eq_none.mp (Option.isSome_eq_false_iff.mp blind)
      have noStateToo : new.stateId? name = none := by
        rw [← noState, restated.others]
        rfl
      rw [ofReference, ofReference, restated.nodeNamed?_eq, noState, noStateToo, restated.tags_eq]
      cases old.nodeNamed? name none with
      | error fault => rfl
      | ok named =>
          cases named with
          | some id => rfl
          | none =>
              cases old.tags.lookup? name with
              | none => rfl
              | some tag => exact congrArg Except.ok (restated.accepts_ofTag tag)

end Restated

end Graph

namespace NodeExecutor

/-- The conjunction of operands accepts what its terms accept, without terms everything. -/
theorem accepts_conjunction (graph : Graph) (operands : List NodeExecutor) (id : NodeId) :
    (if operands.isEmpty then everything graph else .planned operands).accepts id =
      if operands.isEmpty then (graph.node? id).isSome
      else (operands.map Executor.accepts).all fun accepts => accepts id := by
  cases operands with
  | nil => rfl
  | cons operand rest =>
      refine (Executor.accepts_planned (List.cons_ne_nil operand rest) id).trans ?_
      rw [List.all_map]
      rfl

theorem accepts_disjunction (operands : List NodeExecutor) (id : NodeId) :
    (if operands.isEmpty then Executor.nothing else Executor.union operands).accepts id =
      (operands.map Executor.accepts).any fun accepts => accepts id := by
  cases operands with
  | nil => rfl
  | cons operand rest =>
      refine (Executor.accepts_union (operand :: rest) id).trans ?_
      rw [List.any_map]
      rfl

/-- Right-hand sides that are not read anew compare alike beside any graph. -/
theorem compares_eq (repository : Repository) (graph : Graph) (comparison : Comparison)
    {operands : List Operand} (literal : operands.all Operand.isLiteral = true)
    (value : Value) (declared : DataType) :
    compares { repository with graph } comparison operands value declared =
      compares repository comparison operands value declared := by
  have read (operand : Operand) (isOperand : operand ∈ operands) :
      operandValue? { repository with graph } declared operand =
        operandValue? repository declared operand := by
    have isLiteral := List.all_eq_true.mp literal operand isOperand
    cases operand with
    | literal value text => rfl
    | deferred text => cases isLiteral
  have first : operands.head?.bind (operandValue? { repository with graph } declared) =
      operands.head?.bind (operandValue? repository declared) := by
    cases operands with
    | nil => rfl
    | cons operand rest => exact read operand (List.mem_cons_self ..)
  cases comparison
  case equal =>
    rw [compares, compares, Bool.eq_iff_iff, List.any_eq_true, List.any_eq_true]
    exact exists_congr fun operand => and_congr_right fun isOperand => by
      rw [read operand isOperand]
  case unequal =>
    rw [compares, compares, Bool.eq_iff_iff, List.all_eq_true, List.all_eq_true]
    exact forall₂_congr fun operand isOperand => by rw [read operand isOperand]
  all_goals simp only [compares, first]

theorem relates_eq {repository : Repository} {graph : Graph}
    (restated : repository.graph.Restated graph) (path : BoundPath) (relation : Relation)
    {operands : List Operand} (literal : operands.all Operand.isLiteral = true) :
    relates { repository with graph } path relation operands =
      relates repository path relation operands := by
  funext id
  have values : path.typedValues graph id = path.typedValues repository.graph id :=
    restated.typedValues_eq path id
  simp only [relates, compares_eq repository graph relation.comparison literal, values]

mutual
/-- A compiled condition that looks at no state accepts the same nodes. -/
theorem accepts_compile {repository : Repository} {graph : Graph}
    (restated : repository.graph.Restated graph) (expression : Expression)
    (blind : expression.readsStates repository.graph = false) :
    (compile { repository with graph } expression).map Executor.accepts =
      (compile repository expression).map Executor.accepts := by
  cases expression with
  | everything => exact congrArg Except.ok (funext restated.isSome_node?)
  | nothing => rfl
  | all terms =>
      rw [compile_all, compile_all]
      refine map_bind_congr (accepts_compileAll restated terms blind) fun one two alike =>
        congrArg Except.ok ?_
      funext id
      have lengths : one.isEmpty = two.isEmpty := by
        simpa using congrArg List.isEmpty alike
      rw [accepts_conjunction, accepts_conjunction, alike, lengths, restated.isSome_node?]
  | any terms =>
      rw [compile_any, compile_any]
      refine map_bind_congr (accepts_compileAll restated terms blind) fun one two alike =>
        congrArg Except.ok ?_
      funext id
      rw [accepts_disjunction, accepts_disjunction, alike]
  | negation term =>
      rw [compile_negation, compile_negation]
      refine map_bind_congr (accepts_compile restated term blind) fun one two alike =>
        congrArg Except.ok ?_
      funext id
      rw [Executor.accepts_complement, Executor.accepts_complement, alike]
  | type id name =>
      have declared : graph.type? id = repository.graph.type? id := by
        rw [Graph.type?, Graph.type?, restated.types_eq]
      rw [compile_type, compile_type]
      simp only [declared]
      split
      · exact congrArg Except.ok (restated.accepts_ofType id)
      · rfl
  | state id name => cases blind
  | name reference => exact restated.accepts_ofReference reference blind
  | relation path relation operands =>
      -- A literal stands for itself, whatever the converters make of the graph.
      have literal : operands.all Operand.isLiteral = true := by
        simpa [Expression.readsStates] using blind
      rw [compile_relation, compile_relation, relates_eq restated path relation literal]
  | application path mode body =>
      rw [compile_application, compile_application]
      refine map_bind_congr (accepts_compile restated body blind) fun one two alike =>
        congrArg Except.ok ?_
      have test (inner : NodeExecutor) :
          applies graph path mode inner.accepts =
            applies repository.graph path mode inner.accepts := by
        funext id
        simp only [applies, restated.nodes_eq]
      rw [test, alike]

theorem accepts_compileAll {repository : Repository} {graph : Graph}
    (restated : repository.graph.Restated graph) (terms : List Expression)
    (blind : Expression.someReadsStates repository.graph terms = false) :
    (compileAll { repository with graph } terms).map (·.map Executor.accepts) =
      (compileAll repository terms).map (·.map Executor.accepts) := by
  cases terms with
  | nil => rfl
  | cons term rest =>
      rw [Expression.someReadsStates, Bool.or_eq_false_iff] at blind
      have first := accepts_compile restated term blind.1
      have others := accepts_compileAll restated rest blind.2
      rw [compileAll_cons, compileAll_cons]
      refine map_bind_congr first fun one two alike => map_bind_congr others
        fun ones twos alikeToo => congrArg Except.ok ?_
      simp only [List.map_cons, alike, alikeToo]
end

end NodeExecutor

end LifecycleGraph
