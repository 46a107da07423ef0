import LifecycleGraph.Query.Binding
import LifecycleGraph.Query.Executor

/-!
# Evaluating queries

A bound expression becomes an executor over the nodes of a repository.  Types,
states, tags and single nodes enumerate from the indices; relations and
applications only test.  Every name is resolved before any node is looked at.
-/

set_option autoImplicit false

namespace LifecycleGraph

/-- Executors over the nodes of a repository report no events. -/
abbrev NodeExecutor := Executor Empty

namespace NodeExecutor

def everything (graph : Graph) : NodeExecutor :=
  .enumerated (Executor.silent fun id => (graph.node? id).isSome) graph.nodeCount graph.allNodes

/-- The nodes of a type and of those that derive from it. -/
def ofType (graph : Graph) (type : TypeId) : NodeExecutor :=
  let types := graph.subtypes type
  .enumerated (Executor.silent fun id => (graph.node? id).any fun node => types.contains node.type)
    (total (fun type => (graph.nodesOfType type).length) types)
    (types.flatMap graph.nodesOfType)

def ofNode (id : NodeId) : NodeExecutor := .enumerated (Executor.silent (· == id)) 1 [id]

def ofState (graph : Graph) (state : StateId) : NodeExecutor :=
  .enumerated (Executor.silent fun id => (graph.node? id).any fun node => node.state == some state)
    (graph.nodesInState state).length (graph.nodesInState state)

/-- The nodes that carry a tag or one below it. -/
def ofTag (graph : Graph) (tag : TagId) : NodeExecutor :=
  let tags := graph.tags.walk tag
  .enumerated
    (Executor.silent fun id => (graph.node? id).any fun node =>
      node.tags.any fun held => graph.tags.isa held tag)
    (total (fun tag => (graph.nodesWithTag tag).length) tags)
    (Ascending.ofList (tags.flatMap graph.nodesWithTag)).members

/-- The value of a right-hand side for values of a declared type; a text that is
none of that type has no value. -/
def operandValue? (repository : Repository) (declared : DataType) : Operand → Option Value
  | .literal value _ => some value
  | .deferred text => (repository.decodeText text declared).toOption

/-- The order of two values satisfies an ordering comparison. -/
def ordered (comparison : Comparison) (order : Ordering) : Bool :=
  match comparison with
  | .less => order == .lt
  | .lessOrEqual => order != .gt
  | .greater => order == .gt
  | .greaterOrEqual => order != .lt
  | _ => false

/-- A value satisfies a comparison: equality with any right-hand side, inequality
with every one, and order against the first. -/
def compares (repository : Repository) (comparison : Comparison) (operands : List Operand)
    (value : Value) (declared : DataType) : Bool :=
  match comparison with
  | .equal =>
      operands.any fun operand =>
        (operandValue? repository declared operand).any value.looseEq
  | .unequal =>
      operands.all fun operand =>
        (operandValue? repository declared operand).all fun right => !value.looseEq right
  | comparison =>
      match operands.head?.bind (operandValue? repository declared) with
      | none => false
      | some right => (value.compare? right).any (ordered comparison)

/-- The values of a node satisfy a relation: all of them, or any. -/
def relates (repository : Repository) (path : BoundPath) (relation : Relation)
    (operands : List Operand) (id : NodeId) : Bool :=
  let values := path.typedValues repository.graph id
  let satisfied (value : Value × DataType) : Bool :=
    compares repository relation.comparison operands value.1 value.2
  match relation.effectiveMode with
  | .all => values.all satisfied
  | .any => values.any satisfied

/-- The nodes at the end of a path satisfy a test: all of them, or any. -/
def applies (graph : Graph) (path : BoundPath) (mode : MatchMode) (test : NodeId → Bool)
    (id : NodeId) : Bool :=
  match mode with
  | .all => (path.nodes graph id).all test
  | .any => (path.nodes graph id).any test

/-- The nodes of a name: a node, the members of a state, or the carriers of a
tag, whichever the name finds first. -/
def ofReference (graph : Graph) : NameReference → Except Fault NodeExecutor
  | .qualified ns nsName name => do
      match ← graph.nodeNamed? name (some ns) with
      | some id => .ok (ofNode id)
      | none => .error (.query (.noSuchNode (NameReference.qualified ns nsName name).text))
  | .dotted names =>
      match graph.tags.lookup? (Text.joinWith "." names) with
      | some tag => .ok (ofTag graph tag)
      | none => .error (.query (.noSuchTag (NameReference.dotted names).text))
  | .bare name => do
      match ← graph.nodeNamed? name none with
      | some id => .ok (ofNode id)
      | none =>
          match graph.stateId? name with
          | some state => .ok (ofState graph state)
          | none =>
              match graph.tags.lookup? name with
              | some tag => .ok (ofTag graph tag)
              | none => .error (.query (.noSuchName name))

mutual
def compile (repository : Repository) : Expression → Except Fault NodeExecutor
  | .everything => .ok (everything repository.graph)
  | .nothing => .ok .nothing
  | .negation term => do
      let inner ← compile repository term
      .ok (.complement inner)
  | .all terms => do
      let operands ← compileAll repository terms
      .ok (if operands.isEmpty then everything repository.graph else .planned operands)
  | .any terms => do
      let operands ← compileAll repository terms
      .ok (if operands.isEmpty then .nothing else .union operands)
  | .type id _ =>
      if (repository.graph.type? id).isSome then .ok (ofType repository.graph id)
      else .error (.query (.unknownType id))
  | .state id _ =>
      if (repository.graph.state? id).isSome then .ok (ofState repository.graph id)
      else .error (.query (.unknownState id))
  | .name reference => ofReference repository.graph reference
  | .relation path relation operands =>
      .ok (.predicate (Executor.silent (relates repository path relation operands)))
  | .application path mode body => do
      let inner ← compile repository body
      .ok (.predicate (Executor.silent (applies repository.graph path mode inner.accepts)))

def compileAll (repository : Repository) : List Expression → Except Fault (List NodeExecutor)
  | [] => .ok []
  | term :: rest => do
      let operand ← compile repository term
      let operands ← compileAll repository rest
      .ok (operand :: operands)
end

section Equations

variable (repository : Repository)

theorem compile_everything :
    compile repository .everything = .ok (everything repository.graph) := rfl

theorem compile_negation (term : Expression) :
    compile repository (.negation term) = (do
      let inner ← compile repository term
      .ok (.complement inner)) := rfl

theorem compile_all (terms : List Expression) :
    compile repository (.all terms) = (do
      let operands ← compileAll repository terms
      .ok (if operands.isEmpty then everything repository.graph else .planned operands)) := rfl

theorem compile_any (terms : List Expression) :
    compile repository (.any terms) = (do
      let operands ← compileAll repository terms
      .ok (if operands.isEmpty then .nothing else .union operands)) := rfl

theorem compile_type (id : TypeId) (name : String) :
    compile repository (.type id name) =
      if (repository.graph.type? id).isSome then .ok (ofType repository.graph id)
      else .error (.query (.unknownType id)) := rfl

theorem compile_state (id : StateId) (name : String) :
    compile repository (.state id name) =
      if (repository.graph.state? id).isSome then .ok (ofState repository.graph id)
      else .error (.query (.unknownState id)) := rfl

theorem compile_name (reference : NameReference) :
    compile repository (.name reference) = ofReference repository.graph reference := rfl

theorem compile_relation (path : BoundPath) (relation : Relation) (operands : List Operand) :
    compile repository (.relation path relation operands) =
      .ok (.predicate (Executor.silent (relates repository path relation operands))) := rfl

theorem compile_application (path : BoundPath) (mode : MatchMode) (body : Expression) :
    compile repository (.application path mode body) = (do
      let inner ← compile repository body
      .ok (.predicate (Executor.silent (applies repository.graph path mode inner.accepts)))) := rfl

theorem compileAll_cons (term : Expression) (rest : List Expression) :
    compileAll repository (term :: rest) = (do
      let operand ← compile repository term
      let operands ← compileAll repository rest
      .ok (operand :: operands)) := rfl

end Equations

end NodeExecutor

namespace Repository

/-- The executor of a query, which is bound first if it is not yet. -/
def compile (repository : Repository) (query : Query) : Except Fault NodeExecutor :=
  match query.bound with
  | some expression => NodeExecutor.compile repository expression
  | none => do
      let expression ← repository.bind query
      NodeExecutor.compile repository expression

def satisfies (repository : Repository) (query : Query) (id : NodeId) : Except Fault Bool :=
  (repository.compile query).map (·.accepts id)

/-- The executor of a query, over every node if the query does not enumerate. -/
def execute (repository : Repository) (query : Query) : Except Fault NodeExecutor :=
  (repository.compile query).map fun executor =>
    if executor.iterable then executor
    else .filtered (NodeExecutor.everything repository.graph) [executor]

def query (repository : Repository) (text : String) : Except Fault NodeExecutor := do
  let query ← repository.boundQuery text
  repository.execute query

end Repository

end LifecycleGraph
