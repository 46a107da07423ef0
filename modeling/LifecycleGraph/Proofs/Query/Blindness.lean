import LifecycleGraph.Proofs.Query.Rebinding

/-!
# What binding does not read

What a query is bound to depends on the declared types, the names of the states and the values
that right-hand sides are read as.  None of it is told by what stored queries were bound to before,
so a query is bound to the same where only that differs.
-/

set_option autoImplicit false

namespace LifecycleGraph

/-! ## Without what is stored -/

def Query.unbound (query : Query) : Query := { query with bound := none }

def Transition.unbound (transition : Transition) : Transition :=
  { transition with guard := transition.guard.unbound }

def State.unbound (state : State) : State :=
  { state with
    condition := state.condition.unbound
    transitions := state.transitions.map Transition.unbound }

def Tag.unbound (tag : Tag) : Tag := { tag with expression := tag.expression.map Query.unbound }

def Forest.unbound (forest : Forest) : Forest :=
  { forest with arena := ⟨forest.arena.slots.map (Option.map Tag.unbound)⟩ }

/-- The graph as it was if no query had been bound. -/
def Graph.unbound (graph : Graph) : Graph :=
  { graph with states := graph.states.modifyAll State.unbound, tags := graph.tags.unbound }

namespace Forest

variable (forest : Forest)

theorem find?_unbound (id : TagId) :
    forest.unbound.find? id = (forest.find? id).map Tag.unbound := by
  simp only [find?, unbound, Arena.find?, List.getElem?_map]
  cases forest.arena.slots[id.index]? <;> rfl

theorem next_unbound : forest.unbound.arena.next = forest.arena.next :=
  List.length_map ..

theorem lineageFrom_unbound (fuel : Nat) (id : TagId) :
    forest.unbound.lineageFrom fuel id = forest.lineageFrom fuel id := by
  induction fuel generalizing id with
  | zero => rfl
  | succ fuel inductionHypothesis =>
      have parents : (forest.unbound.find? id).bind Tag.parent =
          (forest.find? id).bind Tag.parent := by
        rw [find?_unbound, Option.bind_map]
        rfl
      simp only [lineageFrom, parents, inductionHypothesis]

theorem lineage_unbound (id : TagId) : forest.unbound.lineage id = forest.lineage id := by
  rw [lineage, lineage, next_unbound, lineageFrom_unbound]

theorem path_unbound (id : TagId) : forest.unbound.path id = forest.path id := by
  have names (member : TagId) : (forest.unbound.find? member).map Tag.name =
      (forest.find? member).map Tag.name := by
    rw [find?_unbound, Option.map_map]
    rfl
  simp only [path, lineage_unbound, names]

theorem walkFrom_unbound (fuel : Nat) (id : TagId) :
    forest.unbound.walkFrom fuel id = forest.walkFrom fuel id := by
  induction fuel generalizing id with
  | zero => rfl
  | succ fuel inductionHypothesis =>
      rw [walkFrom, walkFrom, find?_unbound, funext inductionHypothesis]
      cases forest.find? id <;> rfl

theorem all_unbound : forest.unbound.all = forest.all := by
  have walks : forest.unbound.walk = forest.walk := by
    funext id
    rw [walk, walk, next_unbound, walkFrom_unbound]
  rw [all, all, walks]
  rfl

theorem lookup?_unbound (name : String) : forest.unbound.lookup? name = forest.lookup? name := by
  have ends : forest.unbound.endsWith = forest.endsWith := by
    funext id names
    rw [endsWith, endsWith, path_unbound]
  rw [lookup?, lookup?, candidates, candidates, ends]
  rfl

theorem lookupBelow?_unbound (ns : TagId) (name : String) :
    forest.unbound.lookupBelow? ns name = forest.lookupBelow? ns name := by
  simp only [lookupBelow?, isa, endsWith, lineage_unbound, path_unbound]
  rfl

end Forest

/-! ## Converters -/

/-- The converter reads data as if no query was bound. -/
def Converter.Blind (converter : Converter) : Prop :=
  ∀ data type graph, converter.decode data type (Graph.unbound graph) =
    converter.decode data type graph

def Converters.Blind (converters : Converters) : Prop := converters.All Converter.Blind

/-- Names of nodes are looked up among the declared types and their nodes. -/
theorem Graph.nodeNamed_of_members {old new : Graph} (types : new.types = old.types)
    (members : new.typeMembers = old.typeMembers) : new.nodeNamed = old.nodeNamed := by
  have unique : new.uniqueAmong = old.uniqueAmong := by
    funext name among
    simp only [uniqueAmong, namedAmong, membersOfType?, typeName, type?, types, members]
  funext name asked
  simp only [nodeNamed, nodeNamed?, typeId?_of_types types, subtypes_of_types types, types, unique]

namespace Converter

theorem blind_tag : tag.Blind := by
  intro data type graph
  simp only [tag, Graph.unbound, Forest.lookup?_unbound, Forest.lookupBelow?_unbound]

theorem blind_node : node.Blind := by
  intro data type graph
  have named : graph.unbound.nodeNamed = graph.nodeNamed := Graph.nodeNamed_of_members rfl rfl
  simp only [node, named]

end Converter

theorem Converters.blind_builtIn : Converters.builtIn.Blind :=
  all_builtIn (fun _ _ _ => rfl) (fun _ _ _ => rfl) (fun _ _ _ => rfl) (fun _ _ _ => rfl)
    Converter.blind_tag Converter.blind_node

/-! ## Binding -/

namespace Repository

/-- What binding reads of the repositories is the same. -/
structure BindAlike (old new : Repository) : Prop where
  types : new.graph.types = old.graph.types
  states : new.graph.stateId? = old.graph.stateId?
  texts : new.decodeText = old.decodeText

namespace BindAlike

variable {old new : Repository}

theorem bindIdentifier_eq (alike : old.BindAlike new) (identifier : Identifier) :
    new.bindIdentifier identifier = old.bindIdentifier identifier := by
  cases identifier <;>
    simp only [bindIdentifier, Graph.typeId?_of_types alike.types, alike.states]

theorem bindOperands_eq (alike : old.BindAlike new) (type : Option DataType)
    (literals : List Literal) :
    new.bindOperands type literals = old.bindOperands type literals := by
  induction literals with
  | nil => rfl
  | cons literal rest inductionHypothesis =>
      simp only [bindOperands, bindOperand, alike.texts, inductionHypothesis]

mutual
theorem bindCondition_eq (alike : old.BindAlike new) (condition : Condition) :
    new.bindCondition condition = old.bindCondition condition := by
  cases condition with
  | any terms => rw [bindCondition, bindCondition, alike.bindAny_eq terms]
  | all terms => rw [bindCondition, bindCondition, alike.bindAll_eq terms]
  | negation term => rw [bindCondition, bindCondition, alike.bindCondition_eq term]
  | predicate identifier => rw [bindCondition, bindCondition, alike.bindIdentifier_eq]
  | relation path relation literals =>
      simp only [bindCondition, BoundPath.resolve_of_types alike.types, alike.bindOperands_eq]
  | application path mode body =>
      rw [bindCondition, bindCondition, BoundPath.resolve_of_types alike.types,
        alike.bindCondition_eq body]

theorem bindAny_eq (alike : old.BindAlike new) (terms : List Condition) :
    new.bindAny terms = old.bindAny terms := by
  cases terms with
  | nil => rw [bindAny, bindAny]
  | cons term rest => rw [bindAny, bindAny, alike.bindCondition_eq term, alike.bindAny_eq rest]

theorem bindAll_eq (alike : old.BindAlike new) (terms : List Condition) :
    new.bindAll terms = old.bindAll terms := by
  cases terms with
  | nil => rw [bindAll, bindAll]
  | cons term rest => rw [bindAll, bindAll, alike.bindCondition_eq term, alike.bindAll_eq rest]
end

theorem bind_eq (alike : old.BindAlike new) : new.bind = old.bind := by
  funext query
  simp only [bind, alike.bindCondition_eq]

end BindAlike

/-- Repositories that differ in what their queries are bound to bind alike. -/
theorem bindAlike_of_unbound {old new : Repository} (converters : new.converters = old.converters)
    (same : new.graph.unbound = old.graph.unbound) (blind : old.converters.Blind) :
    old.BindAlike new where
  types := congrArg (fun graph => graph.types) same
  states := by
    have index : new.graph.states.index = old.graph.states.index :=
      congrArg (fun graph => graph.states.index) same
    funext name
    simp only [Graph.stateId?, Roster.slotOf?, index]
  texts := by
    funext text type
    simp only [decodeText, converters]
    cases isConverter : old.converters.converterFor type with
    | error fault => rfl
    | ok converter =>
        have reads := blind.of_converterFor (fun _ _ _ => rfl) isConverter
        have alike (data : Json) : converter.decode data type new.graph =
            converter.decode data type old.graph := by
          rw [← reads data type new.graph, same, reads]
        exact alike _

end Repository

end LifecycleGraph
