import LifecycleGraph.Json.Reader
import LifecycleGraph.Query.Path
import LifecycleGraph.Repository.Basic

/-!
# Binding queries

A condition is bound to the types, states and properties of a repository.  A
part that nothing can satisfy is dropped from an "or", makes an "and" and an
application impossible, and its negation is satisfied by every node.
-/

set_option autoImplicit false

namespace LifecycleGraph

namespace Repository

/-- The data that the text of an untyped right-hand side stands for: null, a
number, a truth value or a text in written form, and else the text itself. -/
def untypedData (text : String) : Json :=
  match Json.read? text with
  | some (.object _) => .text text
  | some (.array _) => .text text
  | some data => data
  | none => .text text

/-- The value of a text that is compared with values of a type. -/
def decodeText (repository : Repository) (text : String) (type : DataType) :
    Except Fault Value := do
  let converter ← repository.converters.converterFor type
  let data := match type with
    | .any => untypedData text
    | _ => .text text
  converter.decode data type repository.graph

/-- A right-hand side, read for the type of the path if there is one. -/
def bindOperand (repository : Repository) (type : Option DataType) (literal : Literal) :
    Except Fault Operand :=
  match type with
  | none => .ok (.deferred literal.text)
  | some type =>
      match repository.decodeText literal.text type with
      | .ok value => .ok (.literal value literal.text)
      | .error cause => .error (.query (.operand literal.text cause))

def bindOperands (repository : Repository) (type : Option DataType) :
    List Literal → Except Fault (List Operand)
  | [] => .ok []
  | literal :: rest => do
      let operand ← repository.bindOperand type literal
      let operands ← repository.bindOperands type rest
      .ok (operand :: operands)

def bindIdentifier (repository : Repository) : Identifier → Except Fault Expression
  | .name name =>
      match repository.graph.typeId? name with
      | some id => .ok (.type id name)
      | none =>
          match repository.graph.stateId? name with
          | some id => .ok (.state id name)
          | none => .ok (.name (.bare name))
  | .dotted names => .ok (.name (.dotted names))
  | .qualified ns name =>
      match repository.graph.typeId? ns with
      | some id => .ok (.name (.qualified id ns name))
      | none => .error (.query (.unknownNamespace ns name))

/-- Several terms joined, the only one, or what stands for none. -/
def joinTerms (join : List Expression → Expression) (empty : Option Expression) :
    List Expression → Option Expression
  | [] => empty
  | [term] => some term
  | terms => some (join terms)

mutual
/-- A condition bound to a repository; none if nothing can satisfy it. -/
def bindCondition (repository : Repository) : Condition → Except Fault (Option Expression)
  | .any terms => do
      let bound ← bindAny repository terms
      .ok (joinTerms .any none bound)
  | .all terms => do
      match ← bindAll repository terms with
      | some bound => .ok (joinTerms .all (some .everything) bound)
      | none => .ok none
  | .negation term => do
      match ← bindCondition repository term with
      | some bound => .ok (some (.negation bound))
      | none => .ok (some .everything)
  | .predicate identifier => (repository.bindIdentifier identifier).map some
  | .relation path relation literals => do
      let path ← BoundPath.resolve repository.graph path false
      let operands ← repository.bindOperands path.valueType literals
      .ok (some (.relation path relation operands))
  | .application path mode body => do
      let path ← BoundPath.resolve repository.graph path true
      let body ← bindCondition repository body
      .ok (body.map (.application path mode))

/-- The terms that something can satisfy. -/
def bindAny (repository : Repository) : List Condition → Except Fault (List Expression)
  | [] => .ok []
  | term :: rest => do
      let bound ← bindCondition repository term
      let others ← bindAny repository rest
      .ok (bound.toList ++ others)

/-- The terms, up to the first one that nothing can satisfy. -/
def bindAll (repository : Repository) : List Condition → Except Fault (Option (List Expression))
  | [] => .ok (some [])
  | term :: rest => do
      match ← bindCondition repository term with
      | none => .ok none
      | some bound =>
          let others ← bindAll repository rest
          .ok (others.map (bound :: ·))
end

/-- What a query is bound to; without a condition every node satisfies it. -/
def bind (repository : Repository) (query : Query) : Except Fault Expression :=
  match query.condition with
  | none => .ok .everything
  | some condition =>
      (repository.bindCondition condition).map fun bound => bound.getD .nothing

def rebind (repository : Repository) (query : Query) : Except Fault Query :=
  (repository.bind query).map query.setBound

def boundQuery (repository : Repository) (text : String) : Except Fault Query := do
  let query ← Query.parse text
  repository.rebind query

end Repository

end LifecycleGraph
