import LifecycleGraph.Query.Parser
import LifecycleGraph.Value
import LifecycleGraph.DataType
import LifecycleGraph.Fault

/-!
# Bound queries

A condition that has been bound to the declared types and states: paths are
resolved to properties, names of types and states to handles, and right-hand
sides to values.  Names of nodes and tags stay names until the query is used.
A query keeps its text and its condition, so that it can be bound again.
-/

set_option autoImplicit false

namespace LifecycleGraph

/-- How a step finds its property on a node: the only one of its name, or one
for each type that the step may start from (no type: any node). -/
inductive StepBinding where
  | single (property : PropertyId)
  | perType (candidates : List (Option TypeId × PropertyId))
deriving DecidableEq, Repr

structure BoundStep where
  reverse : Bool
  name : String
  binding : StepBinding
deriving DecidableEq, Repr

structure BoundPath where
  steps : List BoundStep
  valueType : Option DataType
deriving DecidableEq, Repr

/-- A name that is resolved when the query is used. -/
inductive NameReference where
  | bare (name : String)
  | dotted (names : List String)
  | qualified (ns : TypeId) (nsName name : String)
deriving DecidableEq, Repr

/-- A right-hand side: read as a value of the type of the path, or read anew for
the type of each branch. -/
inductive Operand where
  | literal (value : Value) (text : String)
  | deferred (text : String)

inductive Expression where
  | everything
  | nothing
  | all (terms : List Expression)
  | any (terms : List Expression)
  | negation (term : Expression)
  | type (id : TypeId) (name : String)
  | state (id : StateId) (name : String)
  | name (reference : NameReference)
  | relation (path : BoundPath) (relation : Relation) (operands : List Operand)
  | application (path : BoundPath) (mode : MatchMode) (body : Expression)

def BoundStep.text (step : BoundStep) : String := PathStep.text ⟨step.reverse, step.name⟩

def BoundPath.text (path : BoundPath) : String :=
  Text.joinWith "." (path.steps.map BoundStep.text)

def NameReference.text : NameReference → String
  | .bare name => name
  | .dotted names => Text.joinWith "." names
  | .qualified _ nsName name => nsName ++ ":" ++ name

def Operand.text : Operand → String
  | .literal _ text => text
  | .deferred text => text

mutual
/-- The text of a bound query. -/
def Expression.display : Expression → String
  | .everything => "All"
  | .nothing => "Empty"
  | .all terms => "&(" ++ Expression.displayTerms terms ++ ")"
  | .any terms => "|(" ++ Expression.displayTerms terms ++ ")"
  | .negation term => "!(" ++ term.display ++ ")"
  | .type _ label => label
  | .state _ label => label
  | .name reference => reference.text
  | .relation path compared operands =>
      compared.text ++ "(" ++ Text.joinWith "," (path.text :: operands.map Operand.text) ++ ")"
  | .application path mode body =>
      mode.text ++ "[" ++ path.text ++ "," ++ body.display ++ "]"

def Expression.displayTerms : List Expression → String
  | [] => ""
  | [term] => term.display
  | term :: next :: rest => term.display ++ "," ++ Expression.displayTerms (next :: rest)
end

/-- A query: its text, its condition if it has one, and what it is bound to
since it was bound last. -/
structure Query where
  text : String
  condition : Option Condition
  bound : Option Expression

namespace Query

/-- The query without text, which every node satisfies. -/
def everything : Query := ⟨"", none, none⟩

def parse (text : String) : Except Fault Query :=
  match Condition.parse text with
  | .ok condition => .ok ⟨text, condition, none⟩
  | .error fault => .error (.ofSyntax fault)

def setBound (query : Query) (expression : Expression) : Query :=
  { query with bound := some expression }

def isBound (query : Query) : Bool := query.bound.isSome

/-- What the query is bound to; its text as long as it is not. -/
def display (query : Query) : String :=
  match query.bound with
  | some expression => expression.display
  | none => query.text

end Query

end LifecycleGraph
