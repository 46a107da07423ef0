import LifecycleGraph.Text.Alphanumeric
import LifecycleGraph.Text.Parts

/-!
# The syntax of queries

A query is a condition on nodes.  Conditions are joined by "or" and "and" and
turned round by "not".  A predicate names a type, a state, a node or a tag; a
relation compares the values at the end of a property path; an application
puts a condition on the nodes at the end of a path.
-/

set_option autoImplicit false

namespace LifecycleGraph

/-- Whether all of the values at the end of a path have to fit, or any one. -/
inductive MatchMode where
  | all
  | any
deriving DecidableEq, Repr

inductive Comparison where
  | equal
  | unequal
  | less
  | lessOrEqual
  | greater
  | greaterOrEqual
deriving DecidableEq, Repr

structure Relation where
  mode : Option MatchMode
  comparison : Comparison
deriving DecidableEq, Repr

/-- A step along a property, or back along it to the nodes that refer. -/
structure PathStep where
  reverse : Bool
  name : String
deriving DecidableEq, Repr

/-- A predicate as it is written. -/
inductive Identifier where
  | name (name : String)
  | dotted (names : List String)
  | qualified (ns name : String)
deriving DecidableEq, Repr

inductive Literal where
  | symbol (text : String)
  | quoted (text : String)
  | dotted (names : List String)
  | qualified (ns name : String)
deriving DecidableEq, Repr

inductive Condition where
  | any (terms : List Condition)
  | all (terms : List Condition)
  | negation (term : Condition)
  | predicate (identifier : Identifier)
  | relation (path : List PathStep) (relation : Relation) (literals : List Literal)
  | application (path : List PathStep) (mode : MatchMode) (body : Condition)
deriving Repr

def MatchMode.text : MatchMode → String
  | .all => "&"
  | .any => "|"

def Comparison.text : Comparison → String
  | .equal => "="
  | .unequal => "!="
  | .less => "<"
  | .lessOrEqual => "<="
  | .greater => ">"
  | .greaterOrEqual => ">="

/-- Comparisons that may have several right-hand sides. -/
def Comparison.isEquality : Comparison → Bool
  | .equal => true
  | .unequal => true
  | _ => false

/-- The written mode, or else that any value is enough. -/
def Relation.effectiveMode (relation : Relation) : MatchMode := relation.mode.getD .any

def Relation.text (relation : Relation) : String :=
  (relation.mode.map MatchMode.text).getD "" ++ relation.comparison.text

def PathStep.text (step : PathStep) : String :=
  if step.reverse then "~" ++ step.name else step.name

def Literal.text : Literal → String
  | .symbol text => text
  | .quoted text => text
  | .dotted names => Text.joinWith "." names
  | .qualified ns name => ns ++ ":" ++ name

/-- The characters of a symbol: letters and numbers, the underscore, the hyphen. -/
def isSymbolChar (character : Char) : Bool :=
  Text.isAlphanumeric character || character == '_' || character == '-'

end LifecycleGraph
