import LifecycleGraph.Configuration.Declaration
import LifecycleGraph.Query.Binding

/-!
# Declaring types and states

A name is declared before it is defined, so that types and states may refer to
each other.  A definition takes the place of an earlier one of the same name.
Stored queries are bound when the repository is refreshed.
-/

set_option autoImplicit false

namespace LifecycleGraph

namespace Repository

/-! ## Types -/

def declareType (name : String) : Change Graph TypeId :=
  .ofFunction fun graph =>
    match graph.typeId? name with
    | some id => (.ok id, graph)
    | none =>
        let id : TypeId := ⟨graph.types.size⟩
        (.ok id,
          { graph with
            types := (graph.types.insert name (.declared id)).1
            typeMembers := graph.typeMembers ++ [⟨.empty, .empty⟩] })

def makeProperty (declaration : PropertyDeclaration) (dataType : DataType) : Property :=
  match declaration with
  | .short _ => .ofType dataType
  | .full _ required list default description =>
      { Property.ofType dataType with required, list, default, description }

def resolveProperties (repository : Repository) (type : String) :
    List (String × PropertyDeclaration) → Except Fault (List (String × Property))
  | [] => .ok []
  | (name, declaration) :: rest => do
      let dataType ← match repository.resolveType declaration.type with
        | .ok dataType => .ok dataType
        | .error cause => .error (.schema (.propertyType type name cause))
      let others ← repository.resolveProperties type rest
      .ok ((name, makeProperty declaration dataType) :: others)

def resolveBase (repository : Repository) (type : String) :
    Option String → Except Fault (Option TypeId)
  | none => .ok none
  | some base =>
      match repository.graph.typeId? base with
      | some id => .ok (some id)
      | none => .error (.schema (.unknownBase type base))

/-- A type with the base, the description and the properties that define it. -/
def defineAs (base : Option TypeId) (description : String)
    (properties : List (String × Property)) (type : NodeType) : NodeType :=
  { type with
    base, description
    properties := properties.foldl
      (fun roster entry => (roster.insert entry.1 entry.2).1) type.properties.clear }

def adjustType (id : TypeId) (change : NodeType → NodeType) (graph : Graph) : Graph :=
  { graph with types := graph.types.modifyAt id.index change }

def defineType (name : String) (declaration : TypeDeclaration) : Change Repository TypeId := do
  let id ← onGraph (declareType name)
  let base ← Change.ask (·.resolveBase name declaration.base)
  let properties ← Change.ask fun repository =>
    match declaration.propertyDeclarations? with
    | some declarations => repository.resolveProperties name declarations
    | none => .error (.schema (.typeMisfit name Json.misfitReason))
  onGraph (modify (adjustType id (defineAs base declaration.description properties)))
  pure id

/-- No type is its own base along its base chain. -/
def checkBases (repository : Repository) : Except Fault Unit :=
  match repository.graph.cyclicType? with
  | some type => .error (.schema (.cyclicBase type.name))
  | none => .ok ()

/-- Adds a type, or defines it anew. -/
def addNodeType (name : String) (declaration : TypeDeclaration) : Change Repository TypeId := do
  let id ← defineType name declaration
  Change.ask checkBases
  pure id

/-! ## States -/

def declareState (name : String) : Change Graph StateId :=
  .ofFunction fun graph =>
    match graph.stateId? name with
    | some id => (.ok id, graph)
    | none =>
        (.ok ⟨graph.states.size⟩, { graph with states := (graph.states.insert name .declared).1 })

def resolveTransitions (repository : Repository) (name : String) (source : StateId) :
    List (String × Option TransitionDeclaration) → Except Fault (List Transition)
  | [] => .ok []
  | (targetName, declaration) :: rest => do
      let target ← match repository.graph.stateId? targetName with
        | some target => .ok target
        | none => .error (.schema (.unknownTarget name targetName))
      let (automatic, text) := TransitionDeclaration.parts declaration
      let guard ← Query.parse text
      let others ← repository.resolveTransitions name source rest
      .ok (⟨source, target, automatic, guard⟩ :: others)

/-- Each of some services with a label, if all of them are registered. -/
def labelServices (repository : Repository) (state label : String) :
    List String → Except Fault (List (String × String))
  | [] => .ok []
  | service :: rest =>
      if repository.services.contains service then do
        let others ← repository.labelServices state label rest
        .ok ((service, label) :: others)
      else .error (.schema (.unknownStateService state service))

def labelAll (repository : Repository) (state : String) :
    List (String × List String) → Except Fault (List (String × String))
  | [] => .ok []
  | (label, services) :: rest => do
      let labelled ← repository.labelServices state label services
      let others ← repository.labelAll state rest
      .ok (labelled ++ others)

/-- The label of a state for each service that has one; the last label of a
service counts. -/
def resolveLabels (repository : Repository) (state : String) :
    Option ServiceLabels → Except Fault (Table String String)
  | none => .ok .empty
  | some (.all label) =>
      .ok (.ofList (repository.services.members.map fun entry => (entry.name, label)))
  | some (.byLabel services) => (repository.labelAll state services.entries).map .ofList

def adjustState (id : StateId) (change : State → State) (graph : Graph) : Graph :=
  { graph with states := graph.states.modifyAt id.index change }

def defineState (name : String) (declaration : StateDeclaration) : Change Repository StateId := do
  let id ← onGraph (declareState name)
  let condition ← Change.ask fun _ => Query.parse declaration.condition
  let transitions ← Change.ask fun repository => do
    let declarations ← declaration.transitionDeclarations
    repository.resolveTransitions name id declarations
  let services ← Change.ask (·.resolveLabels name declaration.services)
  onGraph <| modify <| adjustState id fun state =>
    { state with
      description := declaration.description
      lifecycle := declaration.lifecycle
      condition, transitions, services }
  pure id

/-! ## Refreshing -/

/-- What the condition of a state and the guards of its transitions are bound to. -/
structure StateBinding where
  state : StateId
  condition : Expression
  guards : List Expression

def bindGuards (repository : Repository) : List Transition → Except Fault (List Expression)
  | [] => .ok []
  | transition :: rest => do
      let guard ← repository.bind transition.guard
      let others ← repository.bindGuards rest
      .ok (guard :: others)

def bindState (repository : Repository) (state : State) : Except Fault StateBinding := do
  let condition ← repository.bind state.condition
  let guards ← repository.bindGuards state.transitions
  .ok ⟨state.id, condition, guards⟩

def bindStates (repository : Repository) : List State → Except Fault (List StateBinding)
  | [] => .ok []
  | state :: rest => do
      let binding ← repository.bindState state
      let others ← repository.bindStates rest
      .ok (binding :: others)

/-- What the expressions of some tags are bound to; tags without one are passed over. -/
def bindTags (repository : Repository) : List TagId → Except Fault (List (TagId × Expression))
  | [] => .ok []
  | id :: rest =>
      match (repository.graph.tags.find? id).bind Tag.expression with
      | none => repository.bindTags rest
      | some query => do
          let expression ← repository.bind query
          let others ← repository.bindTags rest
          .ok ((id, expression) :: others)

/-- Each guard is given to the transition in its place. -/
def storeGuards : List Transition → List Expression → List Transition
  | transition :: rest, guard :: guards =>
      { transition with guard := transition.guard.setBound guard } :: storeGuards rest guards
  | transitions, _ => transitions

def StateBinding.stored (binding : StateBinding) (state : State) : State :=
  { state with
    condition := state.condition.setBound binding.condition
    transitions := storeGuards state.transitions binding.guards }

def storeState (states : Roster State Unit) (binding : StateBinding) : Roster State Unit :=
  states.modifyAt binding.state.index binding.stored

def boundTag (expression : Expression) (tag : Tag) : Tag :=
  { tag with expression := tag.expression.map (·.setBound expression) }

def storeTag (tags : Forest) (binding : TagId × Expression) : Forest :=
  tags.adjust binding.1 (boundTag binding.2)

/-- Binds every stored query anew: the conditions and guards of all states and
the expressions of all tags.  Nothing is stored unless all can be bound. -/
def refresh (repository : Repository) : Except Fault Repository := do
  let graph := repository.graph
  let states ← repository.bindStates graph.states.members
  let tags ← repository.bindTags graph.tags.all
  .ok { repository with
    graph := { graph with
      states := states.foldl storeState graph.states
      tags := tags.foldl storeTag graph.tags } }

end Repository

end LifecycleGraph
