import LifecycleGraph.Proofs.Repository.Content

/-!
# Runs of operations

The operations on a repository, and the repositories that are reached from the
empty one by operations that succeed or fail, in any order.  What every single
operation keeps holds of every repository that is reached.
-/

set_option autoImplicit false

namespace LifecycleGraph

/-- A change of nodes, or the removal of a tag from them. -/
inductive Mutation where
  | addNode (type : TypeId) (name : String)
  | configureNode (id : NodeId) (content : NodeContent)
  | setProperty (id : NodeId) (property : PropertyId) (value : Value)
  | setPropertyNamed (id : NodeId) (name : String) (value : Value)
  | addTag (id : NodeId) (tag : TagId)
  | removeTag (id : NodeId) (tag : TagId)
  | setState (id : NodeId) (state : Option StateId)
  | removeNode (id : NodeId)
  | removeTagTree (tag : TagId)

inductive Operation where
  | configure (content : RepositoryContent)
  | refresh
  | addNodeType (name : String) (declaration : TypeDeclaration)
  | addState (name : String) (declaration : StateDeclaration)
  | newTag (parent : Option TagId) (name : String)
  | tagOrCreate (name : String) (parent : Option TagId)
  | registerService (name : String) (entry : ServiceEntry)
  | registerConverter (name : String) (converter : Converter)
  | mutate (mutation : Mutation)

namespace Mutation

open Repository

def perform : Mutation → Change Repository Unit
  | addNode type name => do
      let _ ← onGraph (Graph.addNode type name)
  | configureNode id content => Repository.configureNode id content
  | setProperty id property value => onGraph (Graph.setProperty id property value)
  | setPropertyNamed id name value => onGraph (Graph.setPropertyNamed id name value)
  | addTag id tag => onGraph (Graph.addTag id tag)
  | removeTag id tag => do
      let _ ← onGraph (Graph.removeTag id tag)
  | setState id state => onGraph (Graph.setState id state)
  | removeNode id => onGraph (Graph.removeNode id)
  | removeTagTree tag => do
      let _ ← onGraph (Graph.removeTagTree tag)

end Mutation

namespace Operation

open Repository

def perform : Operation → Change Repository Unit
  | configure content => Repository.configure content
  | refresh => do
      let refreshed ← Change.ask Repository.refresh
      set refreshed
  | addNodeType name declaration => do
      let _ ← Repository.addNodeType name declaration
  | addState name declaration => do
      let _ ← defineState name declaration
  | newTag parent name => do
      let _ ← onGraph (onForest (Forest.add parent name))
  | tagOrCreate name parent => do
      let _ ← onGraph (Repository.tagOrCreate name parent)
  | registerService name entry => modify (·.registerService name entry)
  | registerConverter name converter => modify (·.registerConverter name converter)
  | mutate mutation => mutation.perform

/-- The operation adds a type under a name that is declared already. -/
def Redefines (repository : Repository) : Operation → Prop
  | addNodeType name _ => (repository.graph.typeId? name).isSome = true
  | _ => False

instance (repository : Repository) (operation : Operation) :
    Decidable (operation.Redefines repository) :=
  match operation with
  | addNodeType name _ =>
      inferInstanceAs (Decidable ((repository.graph.typeId? name).isSome = true))
  | configure _ | refresh | addState _ _ | newTag _ _ | tagOrCreate _ _ | registerService _ _
  | registerConverter _ _ | mutate _ => inferInstanceAs (Decidable False)

end Operation

/-- The repositories that operations lead to, each allowed where it is performed. -/
inductive Reached (allowed : Repository → Operation → Prop) : Repository → Prop where
  | empty : Reached allowed .empty
  | step {repository : Repository} {operation : Operation} : Reached allowed repository →
      allowed repository operation →
      Reached allowed (operation.perform.apply repository).2

/-- Reached by any operations. -/
def Reachable : Repository → Prop := Reached fun _ _ => True

/-- Reached without defining a declared type anew. -/
def SteadilyReachable : Repository → Prop :=
  Reached fun repository operation => ¬ operation.Redefines repository

/-- The repository that operations lead to, one after the other. -/
def Operation.run (operations : List Operation) (repository : Repository) : Repository :=
  operations.foldl (fun repository operation => (operation.perform.apply repository).2) repository

/-- Each of some operations is allowed where it is performed. -/
def AllAllowed (allowed : Repository → Operation → Prop) : List Operation → Repository → Prop
  | [], _ => True
  | operation :: rest, repository =>
      allowed repository operation ∧
        AllAllowed allowed rest (operation.perform.apply repository).2

/-- Whether a run is allowed can be evaluated where that is so of single operations. -/
instance AllAllowed.decidable {allowed : Repository → Operation → Prop}
    [∀ repository operation, Decidable (allowed repository operation)] :
    (operations : List Operation) → (repository : Repository) →
      Decidable (AllAllowed allowed operations repository)
  | [], _ => isTrue trivial
  | operation :: rest, repository =>
      have : Decidable (AllAllowed allowed rest (operation.perform.apply repository).2) :=
        AllAllowed.decidable rest _
      inferInstanceAs (Decidable (_ ∧ _))

theorem allAllowed_of_all {allowed : Repository → Operation → Prop}
    (all : ∀ repository operation, allowed repository operation) (operations : List Operation)
    (repository : Repository) : AllAllowed allowed operations repository := by
  induction operations generalizing repository with
  | nil => trivial
  | cons operation rest inductionHypothesis =>
      exact ⟨all repository operation, inductionHypothesis _⟩

theorem Reached.run {allowed : Repository → Operation → Prop} {repository : Repository}
    (reached : Reached allowed repository) {operations : List Operation}
    (each : AllAllowed allowed operations repository) :
    Reached allowed (Operation.run operations repository) := by
  induction operations generalizing repository with
  | nil => exact reached
  | cons operation rest inductionHypothesis =>
      exact inductionHypothesis (reached.step each.1) each.2

/-- Any operations at all lead to a repository that is reachable. -/
theorem reachable_run (operations : List Operation) :
    Reachable (Operation.run operations .empty) :=
  Reached.empty.run (allAllowed_of_all (fun _ _ => trivial) operations .empty)

section Kept

open Graph Repository

variable {kept : Graph → Prop}

theorem keeps_setPropertyNamed (tended : Tended kept) (id : NodeId) (name : String)
    (value : Value) : (setPropertyNamed id name value).Keeps kept :=
  (Change.keeps_ask _).bind fun _ => (Change.keeps_ask _).bind fun property =>
    tended.setProperty id property value

theorem keeps_mutation (tended : Tended kept) (mutation : Mutation) :
    mutation.perform.Keeps (OfGraph kept) := by
  cases mutation with
  | addNode type name => exact (keeps_onGraph (tended.addNode type name)).answerless
  | configureNode id content => exact keeps_configureNode tended id content
  | setProperty id property value => exact keeps_onGraph (tended.setProperty id property value)
  | setPropertyNamed id name value =>
      exact keeps_onGraph (keeps_setPropertyNamed tended id name value)
  | addTag id tag => exact keeps_onGraph (tended.addTag id tag)
  | removeTag id tag => exact (keeps_onGraph (tended.removeTag id tag)).answerless
  | setState id state => exact keeps_onGraph (tended.setState id state)
  | removeNode id => exact keeps_onGraph (tended.removeNode id)
  | removeTagTree tag => exact (keeps_onGraph (tended.removeTagTree tag)).answerless

/-- What growing forests leave alone is kept by an operation, if it is kept by the part of it
that does more. -/
theorem keeps_operation (planted : Planted kept) (operation : Operation)
    {repository : Repository} (isKept : kept repository.graph)
    (configured : ∀ content, operation = .configure content →
      (configure content).Leads repository (fun _ => OfGraph kept) (OfGraph kept))
    (refreshed : ∀ refreshed, repository.refresh = .ok refreshed → kept refreshed.graph)
    (types : ∀ name declaration, operation = .addNodeType name declaration → ∀ changed,
      Defines name repository.graph changed → kept changed)
    (states : ∀ name declaration, operation = .addState name declaration →
      (defineState name declaration).Leads repository (fun _ => OfGraph kept) (OfGraph kept))
    (mutations : ∀ mutation, operation = .mutate mutation →
      mutation.perform.Leads repository (fun _ => OfGraph kept) (OfGraph kept)) :
    kept (operation.perform.apply repository).2.graph := by
  suffices leads : operation.perform.Leads repository (fun _ => OfGraph kept) (OfGraph kept) from
    leads.state_apply
  cases operation with
  | configure content => exact configured content rfl
  | refresh =>
      exact Change.leads_ask_bind
        (fun answer isRefreshed => Change.leads_set (refreshed answer isRefreshed))
        fun _ _ => isKept
  | addNodeType name declaration =>
      refine ((leads_addNodeType name declaration repository).imp ?_ ?_).answerless
      · exact fun _ changed => types name declaration rfl changed.graph
      · exact fun changed => types name declaration rfl changed.graph
  | addState name declaration => exact (states name declaration rfl).answerless
  | newTag parent name =>
      exact (keeps_onGraph (keeps_onForest planted fun _ => Forest.keeps_add parent name)
        repository isKept).answerless
  | tagOrCreate name parent =>
      exact (keeps_onGraph (keeps_tagOrCreate planted name parent) repository isKept).answerless
  | registerService name entry => exact isKept
  | registerConverter name converter => exact isKept
  | mutate mutation => exact mutations mutation rfl

/-- What is so of every graph without nodes and is kept by every operation where it is
allowed is so of every repository that is reached. -/
theorem Reached.grows (growing : Growing kept)
    (configures : ∀ id content, (configureNode id content).Keeps (OfGraph kept))
    {allowed : Repository → Operation → Prop}
    (types : ∀ repository name declaration, allowed repository (.addNodeType name declaration) →
      kept repository.graph → ∀ changed, Defines name repository.graph changed → kept changed)
    (mutations : ∀ repository mutation, allowed repository (.mutate mutation) →
      kept repository.graph →
        mutation.perform.Leads repository (fun _ => OfGraph kept) (OfGraph kept))
    {repository : Repository} (reached : Reached allowed repository) : kept repository.graph := by
  induction reached with
  | empty => exact growing.bare _ bare_empty
  | step _ isAllowed inductionHypothesis =>
      refine keeps_operation growing.toPlanted _ inductionHypothesis ?_ ?_ ?_ ?_ ?_
      · exact fun content _ => leads_configure growing configures content _
      · exact fun _ => kept_refresh growing.toExtending inductionHypothesis
      · intro name declaration same changed
        obtain rfl := same
        exact types _ name declaration isAllowed inductionHypothesis changed
      · exact fun name declaration _ =>
          keeps_definedState growing.toExtending name declaration _ inductionHypothesis
      · intro mutation same
        obtain rfl := same
        exact mutations _ mutation isAllowed inductionHypothesis

theorem Reached.holds (maintained : Maintained kept) {allowed : Repository → Operation → Prop}
    (types : ∀ repository name declaration, allowed repository (.addNodeType name declaration) →
      kept repository.graph → ∀ changed, Defines name repository.graph changed → kept changed)
    {repository : Repository} (reached : Reached allowed repository) : kept repository.graph :=
  reached.grows maintained.growing (keeps_configureNode maintained.toTended) types
    fun repository mutation _ isKept =>
      keeps_mutation maintained.toTended mutation repository isKept

/-- What is so of every graph with nothing in it, and is kept by changes of nodes and tags, where
types are reshaped, and where states are defined as it is allowed, is so of every repository
that is reached. -/
theorem Reached.tends (tended : Tended kept)
    (cleared : ∀ repository : Repository, kept repository.clear.graph)
    (reshaped : ∀ {old new : Graph}, kept old → old.Reshapes new → kept new)
    (refreshed : ∀ {old new : Repository}, OfGraph kept old → old.refresh = .ok new →
      OfGraph kept new)
    (declares : ∀ name, (declareState name).Keeps kept)
    {allowed : Repository → Operation → Prop}
    (configures : ∀ repository content, allowed repository (.configure content) →
      ∀ entry ∈ content.states, ∀ declaration, StateDeclaration.ofJson entry.2 = .ok declaration →
        (defineState entry.1 declaration).Keeps (OfGraph kept))
    (defines : ∀ repository name declaration, allowed repository (.addState name declaration) →
      (defineState name declaration).Keeps (OfGraph kept))
    {repository : Repository} (reached : Reached allowed repository) : kept repository.graph := by
  induction reached with
  | empty => exact cleared .empty
  | step _ isAllowed inductionHypothesis =>
      refine keeps_operation tended.toPlanted _ inductionHypothesis ?_
        (fun _ => refreshed inductionHypothesis) ?_ ?_ ?_
      · rintro content rfl
        exact leads_configure_of content (cleared _)
          (keeps_onGraph (keeps_onForest tended.toPlanted fun _ => Forest.keeps_configure none _))
          (keeps_reshapedTypes reshaped _)
          (keeps_configureStates (fun name => keeps_onGraph (declares name))
            (configures _ content isAllowed))
          (fun _ => id)
          (keeps_addAllNodes (fun type name => keeps_onGraph (tended.addNode type name)) _)
          (keeps_configureNode tended) refreshed
      · exact fun _ _ _ _ defined => reshaped inductionHypothesis defined.reshapes
      · rintro name declaration rfl
        exact defines _ name declaration isAllowed _ inductionHypothesis
      · exact fun mutation _ => keeps_mutation tended mutation _ inductionHypothesis

/-- Where revised states are left alone, it does not matter how states are defined. -/
theorem Reached.sustains (sustained : Sustained kept)
    (cleared : ∀ repository : Repository, kept repository.clear.graph)
    (reshaped : ∀ {old new : Graph}, kept old → old.Reshapes new → kept new)
    {allowed : Repository → Operation → Prop} {repository : Repository}
    (reached : Reached allowed repository) : kept repository.graph :=
  have extending := sustained.toExtending
  reached.tends sustained.toTended cleared reshaped (kept_refresh extending)
    (keeps_declaredState extending)
    (fun _ _ _ entry _ declaration _ => keeps_definedState extending entry.1 declaration)
    fun _ name declaration _ => keeps_definedState extending name declaration

/-- The indices of every reachable repository list exactly its nodes. -/
theorem Reached.listed {allowed : Repository → Operation → Prop} {repository : Repository}
    (reached : Reached allowed repository) : repository.graph.Listed :=
  reached.holds maintained_listed fun _ _ _ _ listed _ defines => listed.reshape defines.1

end Kept

end LifecycleGraph
