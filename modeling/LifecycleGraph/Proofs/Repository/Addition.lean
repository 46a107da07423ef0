import LifecycleGraph.Proofs.Graph.BaseChain
import LifecycleGraph.Proofs.Repository.Run

/-!
# Additions that fail

A type or a state is declared under its name before it is defined.  Where what defines it cannot
be resolved, the declaration stays: a new name has become a type without a base and properties,
or a state without transitions, and a name that was known changes nothing.  The bases are checked
when the definition of a type is stored, so one that closes a circle stays too.
-/

set_option autoImplicit false

namespace LifecycleGraph

namespace Graph

variable {graph : Graph} {name : String}

/-- The graph in which a name is that of a type, which is new if there was none. -/
def declaringType (graph : Graph) (name : String) : Graph :=
  if (graph.typeId? name).isSome then graph else graph.withType name

/-- The graph in which a name is that of a state, which is new if there was none. -/
def declaringState (graph : Graph) (name : String) : Graph :=
  if (graph.stateId? name).isSome then graph
  else { graph with states := (graph.states.insert name .declared).1 }

theorem declaringType_eq_self_iff :
    graph.declaringType name = graph ↔ (graph.typeId? name).isSome = true := by
  rw [declaringType]
  split
  · rename_i known
    exact iff_of_true rfl known
  · rename_i isNew
    refine iff_of_false (fun same => ?_) isNew
    have noSlot := slotOf?_of_typeId? (Option.not_isSome_iff_eq_none.mp isNew)
    have size := Roster.size_insert_of_new (NodeType.declared ⟨graph.types.size⟩) noSlot
    have sizes : (graph.withType name).types.size = graph.types.size := by rw [same]
    rw [withType, size] at sizes
    omega

theorem declaringState_eq_self_iff :
    graph.declaringState name = graph ↔ (graph.stateId? name).isSome = true := by
  rw [declaringState]
  split
  · rename_i known
    exact iff_of_true rfl known
  · rename_i isNew
    refine iff_of_false (fun same => ?_) isNew
    have noSlot : graph.states.slotOf? name = none :=
      Option.map_eq_none_iff.mp (Option.not_isSome_iff_eq_none.mp isNew)
    have size := Roster.size_insert_of_new State.declared noSlot
    have states : (graph.states.insert name .declared).1 = graph.states :=
      congrArg Graph.states same
    rw [states] at size
    omega

/-- Declaring a name gives no type a base. -/
theorem base?_declaringType (graph : Graph) (name : String) (id : TypeId) :
    (graph.declaringType name).base? id = graph.base? id := by
  rw [declaringType]
  split
  · rfl
  · rename_i isNew
    rw [base?, type?_withType (Option.not_isSome_iff_eq_none.mp isNew)]
    split
    · rename_i isLast
      have noType : graph.type? id = none := by
        rw [← Option.not_isSome_iff_eq_none, isSome_type?_iff, isLast]
        exact Nat.lt_irrefl _
      rw [base?, noType]
      rfl
    · rfl

end Graph

namespace Repository

open Graph

variable {repository changed : Repository} {name : String} {fault : Fault}

/-- The repository in which a name is that of a type, and nothing else may have changed. -/
def declaringType (repository : Repository) (name : String) : Repository :=
  { repository with graph := repository.graph.declaringType name }

def declaringState (repository : Repository) (name : String) : Repository :=
  { repository with graph := repository.graph.declaringState name }

theorem declaringType_eq_self_iff :
    repository.declaringType name = repository ↔ (repository.graph.typeId? name).isSome = true :=
  ⟨fun same => Graph.declaringType_eq_self_iff.mp (congrArg Repository.graph same),
    fun known => by rw [declaringType, Graph.declaringType_eq_self_iff.mpr known]⟩

theorem declaringState_eq_self_iff :
    repository.declaringState name = repository ↔
      (repository.graph.stateId? name).isSome = true :=
  ⟨fun same => Graph.declaringState_eq_self_iff.mp (congrArg Repository.graph same),
    fun known => by rw [declaringState, Graph.declaringState_eq_self_iff.mpr known]⟩

/-! ## Types -/

theorem leads_onGraph_declareType (typed : repository.graph.Typed) (name : String) :
    (onGraph (declareType name)).Leads repository
      (fun id changed => changed = repository.declaringType name ∧
        changed.graph.typeId? name = some id)
      (fun _ => False) := by
  refine Change.leads_within ((leads_declareType name repository.graph).imp ?_ fun _ never => never)
  rintro id graph (⟨known, rfl⟩ | ⟨isNew, rfl, rfl⟩)
  · exact ⟨by simp [declaringType, Graph.declaringType, known], known⟩
  · refine ⟨by simp [declaringType, Graph.declaringType, isNew], ?_⟩
    have isType := type?_withType isNew ⟨repository.graph.types.size⟩
    rw [if_pos rfl] at isType
    exact ((reshapes_withType isNew).typed typed).typeId?_eq isType

/-- The second repository has stored a definition of the type of the name. -/
def DefinedAs (name description : String) (id : TypeId) (declared changed : Repository) : Prop :=
  declared.graph.typeId? name = some id ∧ ∃ base properties,
    changed = { declared with
      graph := adjustType id (defineAs base description properties) declared.graph }

/-- A definition that is stopped has declared its type, and nothing more. -/
theorem leads_defineType_stored (typed : repository.graph.Typed) (name : String)
    (declaration : TypeDeclaration) :
    (defineType name declaration).Leads repository
      (fun id => DefinedAs name declaration.description id (repository.declaringType name))
      (fun changed => changed = repository.declaringType name) := by
  rw [defineType]
  refine Change.leads_bind _
    ((leads_onGraph_declareType typed name).imp (fun _ _ both => both) fun _ never => never.elim) ?_
  rintro id _ ⟨rfl, known⟩
  refine Change.leads_ask_bind (fun base _ => ?_) fun _ _ => rfl
  refine Change.leads_ask_bind (fun properties _ => ?_) fun _ _ => rfl
  exact Change.leads_bind (fun _ => DefinedAs name declaration.description id _)
    (Change.leads_within (Change.leads_modify ⟨known, base, properties, rfl⟩))
    fun _ _ stored => stored

/-- An addition fails with the definition, or at the check of the bases when it is stored. -/
theorem of_addNodeType_failed {declaration : TypeDeclaration}
    (failed : (addNodeType name declaration).apply repository = (.error fault, changed)) :
    (defineType name declaration).apply repository = (.error fault, changed) ∨
      ∃ id type, (defineType name declaration).apply repository = (.ok id, changed) ∧
        changed.graph.cyclicType? = some type ∧ fault = .schema (.cyclicBase type.name) := by
  rw [addNodeType, Change.apply_bind] at failed
  rcases applied : (defineType name declaration).apply repository with ⟨stopped | id, left⟩
  · rw [applied] at failed
    exact .inl failed
  · rw [applied] at failed
    simp only [Change.apply_bind, Change.apply_ask, checkBases] at failed
    cases isCyclic : left.graph.cyclicType? with
    | none =>
        rw [isCyclic] at failed
        cases failed
    | some type =>
        rw [isCyclic] at failed
        cases failed
        exact .inr ⟨id, type, rfl, isCyclic, rfl⟩

/-- A definition that closes the first circle has its type on it. -/
theorem DefinedAs.circular {id : TypeId} {description : String}
    (defined : DefinedAs name description id (repository.declaringType name) changed)
    (oldTyped : repository.graph.Typed) (typed : changed.graph.Typed)
    (noneBefore : repository.graph.cyclicType? = none) {type : NodeType}
    (isCyclic : changed.graph.cyclicType? = some type) : changed.graph.Circular id := by
  have someCircular : ¬ ∀ member, ¬ changed.graph.Circular member :=
    fun noCircle => by simp [typed.cyclicType?_eq_none_iff.mpr noCircle] at isCyclic
  obtain ⟨member, circular⟩ := not_forall_not.mp someCircular
  refine (circular.before_or_through fun other different => ?_).resolve_left
    (oldTyped.cyclicType?_eq_none_iff.mp noneBefore member)
  obtain ⟨-, base, properties, rfl⟩ := defined
  rw [base?, type?_adjustType, if_neg different]
  exact base?_declaringType repository.graph name other

/-! ## States -/

/-- A definition that is stopped has declared its state, and nothing more. -/
theorem leads_defineState_stopped (name : String) (declaration : StateDeclaration)
    (repository : Repository) :
    (defineState name declaration).Leads repository (fun _ _ => True)
      (fun changed => changed = repository.declaringState name) := by
  rw [defineState]
  refine Change.leads_bind (fun _ changed => changed = repository.declaringState name)
    (Change.leads_within ?_) ?_
  · rw [declareState, Change.leads_ofFunction]
    cases known : repository.graph.stateId? name <;>
      simp [declaringState, Graph.declaringState, known]
  rintro id _ rfl
  refine Change.leads_ask_bind (fun condition _ => ?_) fun _ _ => rfl
  refine Change.leads_ask_bind (fun transitions _ => ?_) fun _ _ => rfl
  refine Change.leads_ask_bind (fun services _ => ?_) fun _ _ => rfl
  exact Change.leads_bind (fun _ _ => True) (Change.leads_within (Change.leads_modify trivial))
    fun _ _ _ => trivial

/-! ## What is left -/

/-- An addition that fails has declared the name, so what was there is as it was exactly if the
name was known.  Only a type whose definition closes a circle of bases, or that finds one, is
stored too, and a circle that was not there before goes through it. -/
theorem left_of_failed_addition (reachable : Reachable repository) (name : String) (fault : Fault)
    (changed : Repository) :
    (∀ declaration, (addNodeType name declaration).apply repository = (.error fault, changed) →
      changed = repository.declaringType name ∧
          (changed = repository ↔ (repository.graph.typeId? name).isSome = true) ∨
        ∃ id, DefinedAs name declaration.description id (repository.declaringType name)
            changed ∧
          (∃ type, changed.graph.cyclicType? = some type ∧
            fault = .schema (.cyclicBase type.name)) ∧
          (repository.graph.cyclicType? = none → changed.graph.Circular id)) ∧
    ∀ declaration, (defineState name declaration).apply repository = (.error fault, changed) →
      changed = repository.declaringState name ∧
        (changed = repository ↔ (repository.graph.stateId? name).isSome = true) := by
  have typed := (Reached.listed reachable).schema
  constructor
  · intro declaration failed
    have leads := leads_defineType_stored typed name declaration
    have reshapes := leads_defineType name declaration repository
    rcases of_addNodeType_failed failed with stopped | ⟨id, type, defined, isCyclic, isFault⟩
    · rw [Change.Leads, stopped] at leads
      obtain rfl : changed = repository.declaringType name := leads
      exact .inl ⟨rfl, declaringType_eq_self_iff⟩
    · rw [Change.Leads, defined] at leads reshapes
      have stored : DefinedAs name declaration.description id _ changed := leads
      have defines : Defines name repository.graph changed.graph := reshapes
      exact .inr ⟨id, stored, ⟨type, isCyclic, isFault⟩, fun noneBefore =>
        stored.circular typed (defines.reshapes.typed typed) noneBefore isCyclic⟩
  · intro declaration failed
    have left := (leads_defineState_stopped name declaration repository).state_of_error
      (congrArg Prod.fst failed)
    rw [failed] at left
    obtain rfl : changed = repository.declaringState name := left
    exact ⟨rfl, declaringState_eq_self_iff⟩

/-- Two types of which one derives from the other, and a state. -/
def jobsAndTasks : Repository :=
  Operation.run
    [.addNodeType "job" .plain, .addNodeType "task" ⟨some "job", "", []⟩,
      .addState "open" .plain]
    .empty

/-- A definition of a type with a base of an unknown name. -/
def baseless : TypeDeclaration := ⟨some "nothing", "", []⟩

/-- A definition of a state with a transition to a state of an unknown name. -/
def targetless : StateDeclaration :=
  { StateDeclaration.plain with transitions := [("gone", .null)] }

/-- A definition of a type that derives from the type of tasks. -/
def ofTask : TypeDeclaration := ⟨some "task", "", []⟩

/-- Definitions of known names that cannot be resolved change nothing; one that closes a circle
is stored. -/
theorem left_of_failed_addition_jobsAndTasks :
    ((addNodeType "task" baseless).apply jobsAndTasks).2 = jobsAndTasks ∧
      ((defineState "open" targetless).apply jobsAndTasks).2 = jobsAndTasks ∧
      ((addNodeType "job" ofTask).apply jobsAndTasks).2.graph.Circular ⟨0⟩ := by
  have reachable : Reachable jobsAndTasks := reachable_run _
  have noBase : ((addNodeType "task" baseless).apply jobsAndTasks).1.toOption = none := by
    decide
  have noTarget : ((defineState "open" targetless).apply jobsAndTasks).1.toOption = none := by
    decide
  have noCircle : ((addNodeType "job" ofTask).apply jobsAndTasks).1.toOption = none := by
    decide
  obtain ⟨ofBase, refusedBase⟩ := exists_error_of_toOption noBase
  obtain ⟨ofTarget, refusedTarget⟩ := exists_error_of_toOption noTarget
  obtain ⟨ofCircle, refusedCircle⟩ := exists_error_of_toOption noCircle
  have noneBefore : jobsAndTasks.graph.cyclicType? = none := by
    rw [← Option.not_isSome_iff_eq_none]
    decide
  let unbased := ((addNodeType "task" baseless).apply jobsAndTasks).2
  let circled := ((addNodeType "job" ofTask).apply jobsAndTasks).2
  refine ⟨?_, ?_, ?_⟩
  · have outcome := (left_of_failed_addition reachable "task" ofBase unbased).1 baseless
      (Prod.ext refusedBase rfl)
    rcases outcome with ⟨-, same⟩ | ⟨id, -, ⟨type, isCyclic, -⟩, -⟩
    · exact same.mpr (by decide)
    · have noneAfter : unbased.graph.cyclicType?.isSome = false := by decide
      simp [isCyclic] at noneAfter
  · exact ((left_of_failed_addition reachable "open" ofTarget _).2 targetless
      (Prod.ext refusedTarget rfl)).2.mpr (by decide)
  · have outcome := (left_of_failed_addition reachable "job" ofCircle circled).1 ofTask
      (Prod.ext refusedCircle rfl)
    rcases outcome with ⟨same, -⟩ | ⟨id, ⟨known, -⟩, -, circular⟩
    · have stored : circled.graph.cyclicType?.isSome = true := by decide
      have declared : (jobsAndTasks.declaringType "job").graph.cyclicType?.isSome = false := by
        decide
      rw [same, declared] at stored
      cases stored
    · have isJob : (jobsAndTasks.declaringType "job").graph.typeId? "job" = some ⟨0⟩ := by
        decide
      obtain rfl := Option.some.inj (isJob.symm.trans known)
      exact circular noneBefore

/-- A new type with an unknown base and a new state with an unknown target are refused, but both
names are declared. -/
theorem refused_addition_declares :
    Reachable .empty ∧
      ((addNodeType "job" baseless).apply .empty).1.toOption = none ∧
      empty.graph.typeId? "job" = none ∧
      ((addNodeType "job" baseless).apply .empty).2.graph.typeId? "job" = some ⟨0⟩ ∧
      ((defineState "open" targetless).apply .empty).1.toOption = none ∧
      empty.graph.stateId? "open" = none ∧
      ((defineState "open" targetless).apply .empty).2.graph.stateId? "open" = some ⟨0⟩ :=
  ⟨Reached.empty, by decide, by decide, by decide, by decide,
    by decide, by decide⟩

end Repository

end LifecycleGraph
