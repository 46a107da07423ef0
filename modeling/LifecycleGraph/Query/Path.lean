import LifecycleGraph.Collection.Distinct
import LifecycleGraph.Graph.Basic

/-!
# Property paths

A path is resolved step by step against the declared types.  The types that a
step may start from narrow from step to step, and every step but the last has
to lead to nodes.  On a node, a resolved path yields the values at its end,
each with the type that its property declares.
-/

set_option autoImplicit false

namespace LifecycleGraph

namespace PathStep

/-- A property that a step may follow: the type it starts from (none: any node)
and the type of what it leads to. -/
structure Candidate where
  source : Option TypeId
  property : PropertyId
  target : DataType

/-- A property as a step may follow it, forwards or back to the declaring type. -/
def follow? (step : PathStep) (property : Property) : Option Candidate :=
  if step.reverse then
    match property.dataType with
    | .node target => some ⟨target, property.id, .node (some property.owner)⟩
    | _ => none
  else some ⟨some property.owner, property.id, property.dataType⟩

/-- Some node of the given types can be the start of a candidate; without types
any node can. -/
def reachable (graph : Graph) (context : Option (List TypeId)) (candidate : Candidate) : Bool :=
  match context, candidate.source with
  | some types, some source => types.any (graph.isSubtype · source)
  | _, _ => true

/-- The candidates of a step among the properties of all types. -/
def candidates (graph : Graph) (step : PathStep) (needNode : Bool)
    (context : Option (List TypeId)) : List Candidate :=
  graph.types.members.filterMap fun type => do
    let property ← type.property? step.name
    let candidate ← if needNode && !property.isNode then none else step.follow? property
    if reachable graph context candidate then some candidate else none

/-- The types of the nodes that candidates lead to; none where one of them leads
to any node. -/
def nextContext (graph : Graph) (candidates : List Candidate) : Option (List TypeId) :=
  if candidates.any fun candidate => candidate.target == .node none then none
  else
    some <| candidates.flatMap fun candidate =>
      match candidate.target with
      | .node (some type) => graph.subtypes type
      | _ => []

def bind (step : PathStep) (candidates : List Candidate) : BoundStep :=
  ⟨step.reverse, step.name,
    match candidates with
    | [candidate] => .single candidate.property
    | several => .perType (several.map fun candidate => (candidate.source, candidate.property))⟩

end PathStep

namespace BoundPath

/-- The steps of a path that starts from nodes of the given types, and the
types of what its last step leads to. -/
def resolveFrom (graph : Graph) (needNode : Bool) (context : Option (List TypeId)) :
    List PathStep → Except Fault (List BoundStep × List DataType)
  | [] => .ok ([], [])
  | step :: rest => do
      let candidates := step.candidates graph (needNode || !rest.isEmpty) context
      if candidates.isEmpty then .error (.query (.unresolvedStep step))
      else
        let (steps, targets) ←
          resolveFrom graph needNode (PathStep.nextContext graph candidates) rest
        .ok (step.bind candidates :: steps,
          if rest.isEmpty then candidates.map PathStep.Candidate.target else targets)

/-- The type that all of some types share, if there is one: the same type, any
node, or any tag. -/
def sharedType : List DataType → Option DataType
  | [] => none
  | first :: rest =>
      if rest.all (· == first) then some first
      else if (first :: rest).all DataType.isNode then some (.node none)
      else if (first :: rest).all DataType.isTag then some (.tag none)
      else none

/-- A path resolved against the declared types. -/
def resolve (graph : Graph) (path : List PathStep) (needNode : Bool) :
    Except Fault BoundPath :=
  if path.isEmpty then .error (.query .emptyPath)
  else do
    let (steps, targets) ← resolveFrom graph needNode none path
    .ok ⟨steps, sharedType targets⟩

end BoundPath

namespace BoundStep

/-- The properties that a step reads on a node of a type.  Forwards it is the
most derived declaration; backwards, every property that accepts the node. -/
def propertiesFor (graph : Graph) (step : BoundStep) (type : TypeId) : List PropertyId :=
  match step.binding with
  | .single property =>
      if step.reverse || graph.isSubtype type property.owner then [property] else []
  | .perType candidates =>
      if step.reverse then
        (candidates.filter fun candidate => candidate.1.all (graph.isSubtype type)).map Prod.snd
      else
        ((graph.ancestors type).findSome? fun ancestor =>
          (candidates.find? fun candidate => candidate.1 == some ancestor).map Prod.snd).toList

def valuesOf (graph : Graph) (step : BoundStep) (node : Node) (property : PropertyId) :
    List (Value × DataType) :=
  if step.reverse then
    (node.referrersBy property).map fun referrer =>
      (.node referrer, .node (some property.owner))
  else
    let declared := ((graph.property? property).map Property.dataType).getD .any
    ((node.value? property).getD .null).items.map fun value => (value, declared)

def valuesAt (graph : Graph) (step : BoundStep) (id : NodeId) : List (Value × DataType) :=
  match graph.node? id with
  | none => []
  | some node => (step.propertiesFor graph node.type).flatMap (step.valuesOf graph node)

end BoundStep

namespace BoundPath

/-- The nodes among typed values, each once. -/
def nodesAmong (values : List (Value × DataType)) : List NodeId :=
  firstOccurrences (values.filterMap fun value => value.1.node?)

def valuesFrom (graph : Graph) : List BoundStep → List NodeId → List (Value × DataType)
  | [], _ => []
  | [step], nodes => nodes.flatMap (step.valuesAt graph)
  | step :: next :: rest, nodes =>
      valuesFrom graph (next :: rest) (nodesAmong (nodes.flatMap (step.valuesAt graph)))

def typedValues (graph : Graph) (path : BoundPath) (id : NodeId) : List (Value × DataType) :=
  valuesFrom graph path.steps [id]

def nodes (graph : Graph) (path : BoundPath) (id : NodeId) : List NodeId :=
  nodesAmong (path.typedValues graph id)

end BoundPath

end LifecycleGraph
