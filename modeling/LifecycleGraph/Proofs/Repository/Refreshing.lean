import LifecycleGraph.Proofs.Forest.Walk
import LifecycleGraph.Proofs.Query.Blindness
import LifecycleGraph.Proofs.Repository.Plain

/-!
# Refreshing

A repository is refreshed as a whole or not at all.  Every condition, guard and expression is bound
to what its own query comes to, though all of them are bound before the first one is stored, and
nothing else changes.  Binding does not read what is stored, so refreshing again changes nothing.
-/

set_option autoImplicit false

namespace LifecycleGraph

/-- A converter that is registered is blind. -/
def Operation.Blind : Operation → Prop
  | registerConverter _ converter => converter.Blind
  | _ => True

namespace Repository

open Graph

variable {repository refreshed : Repository}

/-! ## What is stored -/

/-- A query that is stored with a state, a transition or a tag. -/
inductive Stores (repository : Repository) : Query → Prop where
  | condition {state : State} : state ∈ repository.graph.states.members →
      Stores repository state.condition
  | guard {state : State} {transition : Transition} : state ∈ repository.graph.states.members →
      transition ∈ state.transitions → Stores repository transition.guard
  | expression {id : TagId} {tag : Tag} {query : Query} :
      repository.graph.tags.find? id = some tag → tag.expression = some query →
      Stores repository query

/-- The second transition is the first one with its guard bound. -/
def BindsGuard (repository : Repository) (transition bound : Transition) : Prop :=
  ∃ guard, repository.rebind transition.guard = .ok guard ∧ bound = { transition with guard }

/-- The second state is the first one with its condition and its guards bound. -/
def BindsState (repository : Repository) (state bound : State) : Prop :=
  ∃ condition transitions, repository.rebind state.condition = .ok condition ∧
    List.Forall₂ repository.BindsGuard state.transitions transitions ∧
    bound = { state with condition, transitions }

/-- The second tag is the first one with its expression bound, if there is one. -/
def BindsTag (repository : Repository) (tag bound : Tag) : Prop :=
  ∃ expression,
    Option.Rel (repository.rebind · = .ok ·) tag.expression expression ∧
      bound = { tag with expression }

/-- The second repository is the first one with every stored query bound. -/
structure Refreshed (old new : Repository) : Prop where
  states : ∀ id, Option.Rel old.BindsState (old.graph.state? id) (new.graph.state? id)
  stateIndex : new.graph.states.index = old.graph.states.index
  tags : ∀ id, Option.Rel old.BindsTag (old.graph.tags.find? id) (new.graph.tags.find? id)
  roots : new.graph.tags.roots = old.graph.tags.roots
  tagNames : new.graph.tags.names = old.graph.tags.names
  nextTag : new.graph.tags.arena.next = old.graph.tags.arena.next
  others : new =
    { old with graph := { old.graph with states := new.graph.states, tags := new.graph.tags } }

/-! ## What is bound -/

theorem rebind_of_bind {query : Query} {expression : Expression}
    (bound : repository.bind query = .ok expression) :
    repository.rebind query = .ok (query.setBound expression) := by
  rw [rebind, bound]
  rfl

theorem forall₂_of_bindGuards {transitions : List Transition} {guards : List Expression}
    (bound : repository.bindGuards transitions = .ok guards) :
    List.Forall₂ repository.BindsGuard transitions (storeGuards transitions guards) := by
  induction transitions generalizing guards with
  | nil => exact .nil
  | cons transition rest inductionHypothesis =>
      obtain ⟨guard, isGuard, bound⟩ := exists_of_bind_eq_ok bound
      obtain ⟨others, areOthers, same⟩ := exists_of_bind_eq_ok bound
      cases same
      exact .cons ⟨_, rebind_of_bind isGuard, rfl⟩ (inductionHypothesis areOthers)

theorem bindsState_stored {state : State} {binding : StateBinding}
    (bound : repository.bindState state = .ok binding) :
    binding.state = state.id ∧ repository.BindsState state (binding.stored state) := by
  obtain ⟨condition, isCondition, bound⟩ := exists_of_bind_eq_ok bound
  obtain ⟨guards, areGuards, same⟩ := exists_of_bind_eq_ok bound
  cases same
  exact ⟨rfl, _, _, rebind_of_bind isCondition, forall₂_of_bindGuards areGuards, rfl⟩

/-- There is a binding for each state, in the order of the states. -/
theorem bindings_of_bindStates {states : List State} {bindings : List StateBinding}
    (bound : repository.bindStates states = .ok bindings) :
    bindings.map StateBinding.state = states.map State.id ∧
      ∀ state ∈ states, ∃ binding ∈ bindings, repository.bindState state = .ok binding := by
  induction states generalizing bindings with
  | nil =>
      cases bound
      exact ⟨rfl, fun _ member => by cases member⟩
  | cons state rest inductionHypothesis =>
      obtain ⟨binding, isBinding, bound⟩ := exists_of_bind_eq_ok bound
      obtain ⟨others, areOthers, same⟩ := exists_of_bind_eq_ok bound
      cases same
      obtain ⟨handles, each⟩ := inductionHypothesis areOthers
      constructor
      · rw [List.map_cons, List.map_cons, handles, (bindsState_stored isBinding).1]
      · intro other member
        rcases List.mem_cons.mp member with rfl | inRest
        · exact ⟨binding, List.mem_cons_self .., isBinding⟩
        · obtain ⟨another, isAnother, isBound⟩ := each other inRest
          exact ⟨another, List.mem_cons_of_mem _ isAnother, isBound⟩

/-- There is a binding for each tag that has an expression, and for no other. -/
theorem bindings_of_bindTags {ids : List TagId} {bindings : List (TagId × Expression)}
    (bound : repository.bindTags ids = .ok bindings) :
    (bindings.map Prod.fst).Sublist ids ∧
      (∀ binding ∈ bindings, ∃ query,
        (repository.graph.tags.find? binding.1).bind Tag.expression = some query ∧
          repository.bind query = .ok binding.2) ∧
      ∀ id ∈ ids, ∀ query, (repository.graph.tags.find? id).bind Tag.expression = some query →
        id ∈ bindings.map Prod.fst := by
  induction ids generalizing bindings with
  | nil =>
      cases bound
      exact ⟨.slnil, fun _ member => (by cases member), fun _ member => by cases member⟩
  | cons id rest inductionHypothesis =>
      rw [bindTags] at bound
      split at bound
      · rename_i without
        obtain ⟨sublist, sound, each⟩ := inductionHypothesis bound
        refine ⟨sublist.cons id, sound, fun other member query isQuery => ?_⟩
        rcases List.mem_cons.mp member with rfl | inRest
        · cases without.symm.trans isQuery
        · exact each other inRest query isQuery
      · rename_i query isQuery
        obtain ⟨expression, isExpression, bound⟩ := exists_of_bind_eq_ok bound
        obtain ⟨others, areOthers, same⟩ := exists_of_bind_eq_ok bound
        cases same
        obtain ⟨sublist, sound, each⟩ := inductionHypothesis areOthers
        refine ⟨sublist.cons_cons id,
          List.forall_mem_cons.mpr ⟨⟨query, isQuery, isExpression⟩, sound⟩, ?_⟩
        intro other member another given
        rcases List.mem_cons.mp member with rfl | inRest
        · exact List.mem_cons_self ..
        · exact List.mem_cons_of_mem _ (each other inRest another given)

/-! ## What is stored anew -/

theorem updates_storeState :
    Updates (fun states (id : StateId) => states.at? id.index) storeState StateBinding.state
      StateBinding.stored := by
  intro states binding id
  simp only [storeState, Roster.at?_modifyAt, ← StateId.mk.injEq]

theorem updates_storeTag :
    Updates Forest.find? storeTag Prod.fst fun binding => boundTag binding.2 :=
  fun _ _ _ => Forest.find?_adjust ..

theorem index_storeStates (bindings : List StateBinding) (states : Roster State Unit) :
    (bindings.foldl storeState states).index = states.index := by
  induction bindings generalizing states with
  | nil => rfl
  | cons binding rest inductionHypothesis => exact inductionHypothesis _

/-- Storing expressions leaves the tags where they are. -/
theorem frame_storeTags (bindings : List (TagId × Expression)) (tags : Forest) :
    (bindings.foldl storeTag tags).roots = tags.roots ∧
      (bindings.foldl storeTag tags).names = tags.names ∧
      (bindings.foldl storeTag tags).arena.next = tags.arena.next := by
  induction bindings generalizing tags with
  | nil => exact ⟨rfl, rfl, rfl⟩
  | cons binding rest inductionHypothesis =>
      obtain ⟨roots, names, next⟩ := inductionHypothesis (storeTag tags binding)
      exact ⟨roots, names, next.trans (by simp [storeTag, Forest.adjust])⟩

theorem nodup_handles {states : Roster State Unit} (numbered : Numbered states) :
    (states.members.map State.id).Nodup := by
  have handles : states.members.map State.id = (List.range states.members.length).map StateId.mk :=
    List.ext_getElem (by simp) fun slot within _ => by
      have inside : slot < states.members.length := by simpa using within
      have handle := numbered slot _ (List.getElem?_eq_getElem inside)
      simpa using handle
  rw [handles]
  exact List.nodup_range.map fun _ _ => StateId.mk.inj

theorem binds_storeStates (numbered : Numbered repository.graph.states)
    {bindings : List StateBinding}
    (bound : repository.bindStates repository.graph.states.members = .ok bindings) (id : StateId) :
    Option.Rel repository.BindsState (repository.graph.states.at? id.index)
      ((bindings.foldl storeState repository.graph.states).at? id.index) := by
  obtain ⟨handles, each⟩ := bindings_of_bindStates bound
  -- The handles are the slots, so no binding is stored over another one.
  have nodup : (bindings.map StateBinding.state).Nodup := handles ▸ nodup_handles numbered
  cases found : repository.graph.states.at? id.index with
  | none =>
      have nothing : (bindings.foldl storeState repository.graph.states).at? id.index = none :=
        updates_storeState.read_foldl_eq_none found
      rw [nothing]
      exact .none
  | some state =>
      obtain ⟨binding, isBinding, isBound⟩ := each state (List.mem_of_getElem? found)
      obtain ⟨handle, binds⟩ := bindsState_stored isBound
      have place : binding.state = id := handle.trans (numbered id.index state found)
      have stored := updates_storeState.read_foldl_of_mem nodup isBinding repository.graph.states
      simp only [place, found, Option.map_some] at stored
      rw [stored]
      exact .some binds

theorem binds_storeTags (linked : repository.graph.tags.Linked)
    {bindings : List (TagId × Expression)}
    (bound : repository.bindTags repository.graph.tags.all = .ok bindings) (id : TagId) :
    Option.Rel repository.BindsTag (repository.graph.tags.find? id)
      ((bindings.foldl storeTag repository.graph.tags).find? id) := by
  obtain ⟨sublist, sound, each⟩ := bindings_of_bindTags bound
  have nodup : (bindings.map Prod.fst).Nodup := linked.rooted.nodup_all.sublist sublist
  cases found : repository.graph.tags.find? id with
  | none =>
      rw [updates_storeTag.read_foldl_eq_none found]
      exact .none
  | some tag =>
      cases held : tag.expression with
      | none =>
          have absent : id ∉ bindings.map Prod.fst := by
            intro member
            obtain ⟨binding, isBinding, rfl⟩ := List.mem_map.mp member
            obtain ⟨query, isQuery, -⟩ := sound binding isBinding
            rw [found, Option.bind_some, held] at isQuery
            cases isQuery
          rw [updates_storeTag.read_foldl_of_not_mem absent, found]
          refine .some ⟨none, ?_, by rw [← held]⟩
          rw [held]
          exact .none
      | some query =>
          have isQuery : (repository.graph.tags.find? id).bind Tag.expression = some query := by
            rw [found, Option.bind_some, held]
          -- No tag of the arena is missed by the walk from the roots.
          have onWalk : id ∈ repository.graph.tags.all :=
            (linked.rooted.mem_all_iff id).mpr (by rw [Forest.contains, found]; rfl)
          obtain ⟨binding, isBinding, rfl⟩ := List.mem_map.mp (each id onWalk query isQuery)
          obtain ⟨other, isOther, isBound⟩ := sound binding isBinding
          obtain rfl := Option.some.inj (isQuery.symm.trans isOther)
          rw [updates_storeTag.read_foldl_of_mem nodup isBinding, found, Option.map_some]
          refine .some ⟨some (query.setBound binding.2), ?_, by rw [boundTag, held]; rfl⟩
          rw [held]
          exact .some (rebind_of_bind isBound)

/-- A repository that is refreshed has every stored query bound, and is as before beside. -/
theorem refreshed_of_refresh (linked : repository.graph.tags.Linked)
    (numbered : Numbered repository.graph.states)
    (isRefreshed : repository.refresh = .ok refreshed) : repository.Refreshed refreshed := by
  obtain ⟨states, tags, areStates, areTags, rfl⟩ := bindings_of_refresh isRefreshed
  obtain ⟨roots, names, next⟩ := frame_storeTags tags repository.graph.tags
  exact ⟨binds_storeStates numbered areStates, index_storeStates states _,
    binds_storeTags linked areTags, roots, names, next, rfl⟩

/-! ## What cannot be bound -/

theorem fault_of_bindGuards {transitions : List Transition} {fault : Fault}
    (failed : repository.bindGuards transitions = .error fault) :
    ∃ transition ∈ transitions, repository.bind transition.guard = .error fault := by
  induction transitions with
  | nil => cases failed
  | cons transition rest inductionHypothesis =>
      rcases exists_of_bind_eq_error failed with here | ⟨guard, -, later⟩
      · exact ⟨transition, List.mem_cons_self .., here⟩
      · have later := error_of_bind_eq_error later fun others => ⟨_, rfl⟩
        obtain ⟨other, inRest, isFault⟩ := inductionHypothesis later
        exact ⟨other, List.mem_cons_of_mem _ inRest, isFault⟩

/-- A fault that stops the binding of states is that of one of their queries. -/
theorem fault_of_bindStates {states : List State} {fault : Fault}
    (failed : repository.bindStates states = .error fault) :
    ∃ state ∈ states, repository.bind state.condition = .error fault ∨
      ∃ transition ∈ state.transitions, repository.bind transition.guard = .error fault := by
  induction states with
  | nil => cases failed
  | cons state rest inductionHypothesis =>
      rcases exists_of_bind_eq_error failed with here | ⟨binding, -, later⟩
      · refine ⟨state, List.mem_cons_self .., ?_⟩
        rcases exists_of_bind_eq_error here with condition | ⟨condition, -, guards⟩
        · exact .inl condition
        · exact .inr (fault_of_bindGuards (error_of_bind_eq_error guards fun guards => ⟨_, rfl⟩))
      · have later := error_of_bind_eq_error later fun others => ⟨_, rfl⟩
        obtain ⟨other, inRest, isFault⟩ := inductionHypothesis later
        exact ⟨other, List.mem_cons_of_mem _ inRest, isFault⟩

theorem fault_of_bindTags {ids : List TagId} {fault : Fault}
    (failed : repository.bindTags ids = .error fault) :
    ∃ id ∈ ids, ∃ query, (repository.graph.tags.find? id).bind Tag.expression = some query ∧
      repository.bind query = .error fault := by
  induction ids with
  | nil => cases failed
  | cons id rest inductionHypothesis =>
      have below (later : repository.bindTags rest = .error fault) :
          ∃ other ∈ id :: rest, ∃ query,
            (repository.graph.tags.find? other).bind Tag.expression = some query ∧
              repository.bind query = .error fault := by
        obtain ⟨other, inRest, isFault⟩ := inductionHypothesis later
        exact ⟨other, List.mem_cons_of_mem _ inRest, isFault⟩
      rw [bindTags] at failed
      split at failed
      · exact below failed
      · rename_i query isQuery
        rcases exists_of_bind_eq_error failed with here | ⟨expression, -, later⟩
        · exact ⟨id, List.mem_cons_self .., query, isQuery, here⟩
        · exact below (error_of_bind_eq_error later fun others => ⟨_, rfl⟩)

/-- A repository is not refreshed where some stored query cannot be bound. -/
theorem fault_of_refresh {fault : Fault} (failed : repository.refresh = .error fault) :
    ∃ query, repository.Stores query ∧ repository.bind query = .error fault := by
  rcases exists_of_bind_eq_error failed with states | ⟨states, -, later⟩
  · obtain ⟨state, isState, isFault | ⟨transition, isTransition, isFault⟩⟩ :=
      fault_of_bindStates states
    · exact ⟨_, .condition isState, isFault⟩
    · exact ⟨_, .guard isState isTransition, isFault⟩
  · have tags := error_of_bind_eq_error later fun tags => ⟨_, rfl⟩
    obtain ⟨id, -, query, isQuery, isFault⟩ := fault_of_bindTags tags
    obtain ⟨tag, found, held⟩ := Option.bind_eq_some_iff.mp isQuery
    exact ⟨query, .expression found held, isFault⟩

/-! ## Refreshing again -/

theorem unbound_storeGuards (transitions : List Transition) (guards : List Expression) :
    (storeGuards transitions guards).map Transition.unbound =
      transitions.map Transition.unbound := by
  induction transitions generalizing guards with
  | nil => rfl
  | cons transition rest inductionHypothesis =>
      cases guards with
      | nil => rfl
      | cons guard guards =>
          rw [storeGuards, List.map_cons, List.map_cons, inductionHypothesis]
          rfl

theorem unbound_stored (binding : StateBinding) (state : State) :
    (binding.stored state).unbound = state.unbound := by
  simp only [StateBinding.stored, State.unbound, unbound_storeGuards]
  rfl

theorem unbound_boundTag (expression : Expression) (tag : Tag) :
    (boundTag expression tag).unbound = tag.unbound := by
  simp only [boundTag, Tag.unbound, Option.map_map]
  rfl

theorem unbound_storeStates (bindings : List StateBinding) (states : Roster State Unit) :
    (bindings.foldl storeState states).modifyAll State.unbound =
      states.modifyAll State.unbound := by
  induction bindings generalizing states with
  | nil => rfl
  | cons binding rest inductionHypothesis =>
      rw [List.foldl_cons, inductionHypothesis]
      refine Roster.ext_at? rfl rfl fun slot => ?_
      simp only [Roster.modifyAll, Roster.at?_modifyEach, storeState, Roster.at?_modifyAt]
      split
      · rw [Option.map_map]
        exact congrArg (Option.map · _) (funext (unbound_stored binding))
      · rfl

theorem unbound_storeTags (bindings : List (TagId × Expression)) (tags : Forest) :
    (bindings.foldl storeTag tags).unbound = tags.unbound := by
  induction bindings generalizing tags with
  | nil => rfl
  | cons binding rest inductionHypothesis =>
      rw [List.foldl_cons, inductionHypothesis]
      have next : (storeTag tags binding).unbound.arena.next = tags.unbound.arena.next := by
        simp [Forest.next_unbound, storeTag, Forest.adjust]
      refine Forest.ext_find? rfl rfl next fun id => ?_
      rw [Forest.find?_unbound, Forest.find?_unbound, storeTag, Forest.find?_adjust]
      split
      · rw [Option.map_map]
        exact congrArg (Option.map · _) (funext (unbound_boundTag binding.2))
      · rfl

/-- Refreshing changes nothing but what queries are bound to. -/
theorem unbound_of_refresh (isRefreshed : repository.refresh = .ok refreshed) :
    refreshed.graph.unbound = repository.graph.unbound := by
  obtain ⟨states, tags, -, -, rfl⟩ := bindings_of_refresh isRefreshed
  simp only [Graph.unbound, unbound_storeStates, unbound_storeTags]

theorem bindGuards_unbound (transitions : List Transition) :
    repository.bindGuards (transitions.map Transition.unbound) =
      repository.bindGuards transitions := by
  induction transitions with
  | nil => rfl
  | cons transition rest inductionHypothesis =>
      rw [List.map_cons, bindGuards, bindGuards, inductionHypothesis]
      rfl

theorem bindStates_unbound (states : List State) :
    repository.bindStates (states.map State.unbound) = repository.bindStates states := by
  induction states with
  | nil => rfl
  | cons state rest inductionHypothesis =>
      have same : repository.bindState state.unbound = repository.bindState state := by
        rw [bindState, bindState, State.unbound, bindGuards_unbound]
        rfl
      rw [List.map_cons, bindStates, bindStates, inductionHypothesis, same]

section Alike

variable {old new : Repository} (bind : new.bind = old.bind)

include bind

theorem bindGuards_of_bind (transitions : List Transition) :
    new.bindGuards transitions = old.bindGuards transitions := by
  induction transitions with
  | nil => rfl
  | cons transition rest inductionHypothesis =>
      rw [bindGuards, bindGuards, bind, inductionHypothesis]

theorem bindStates_of_bind (states : List State) :
    new.bindStates states = old.bindStates states := by
  induction states with
  | nil => rfl
  | cons state rest inductionHypothesis =>
      rw [bindStates, bindStates, bindState, bindState, bind, bindGuards_of_bind bind,
        inductionHypothesis]

theorem bindTags_of_bind (tags : new.graph.tags.unbound = old.graph.tags.unbound)
    (ids : List TagId) : new.bindTags ids = old.bindTags ids := by
  induction ids with
  | nil => rfl
  | cons id rest inductionHypothesis =>
      have expressions : ((new.graph.tags.find? id).bind Tag.expression).map Query.unbound =
          ((old.graph.tags.find? id).bind Tag.expression).map Query.unbound := by
        have same := congrArg (·.find? id) tags
        simp only [Forest.find?_unbound] at same
        have unbound := congrArg (Option.bind · Tag.expression) same
        simp only [Option.bind_map] at unbound
        rw [Option.map_bind, Option.map_bind]
        exact unbound
      simp only [bindTags, inductionHypothesis, bind]
      cases isNew : (new.graph.tags.find? id).bind Tag.expression with
      | none =>
          rw [isNew] at expressions
          rw [Option.map_eq_none_iff.mp expressions.symm]
      | some query =>
          rw [isNew] at expressions
          obtain ⟨other, isOld, unbound⟩ := Option.map_eq_some_iff.mp expressions.symm
          have alike : old.bind query = old.bind other :=
            show old.bind query.unbound = old.bind other.unbound from congrArg old.bind unbound.symm
          rw [isOld]
          simp only [alike]

end Alike

theorem settles_storeGuards (transitions : List Transition) (guards : List Expression) :
    storeGuards (storeGuards transitions guards) guards = storeGuards transitions guards := by
  induction transitions generalizing guards with
  | nil => rfl
  | cons transition rest inductionHypothesis =>
      cases guards with
      | nil => rfl
      | cons guard guards =>
          rw [storeGuards, storeGuards, inductionHypothesis]
          rfl

theorem settles_stored (binding : StateBinding) (state : State) :
    binding.stored (binding.stored state) = binding.stored state := by
  simp only [StateBinding.stored, settles_storeGuards]
  rfl

theorem settles_boundTag (expression : Expression) (tag : Tag) :
    boundTag expression (boundTag expression tag) = boundTag expression tag := by
  simp only [boundTag, Option.map_map]
  rfl

/-- Storing the same bindings again changes nothing. -/
theorem settles_storeStates {bindings : List StateBinding}
    (nodup : (bindings.map StateBinding.state).Nodup) (states : Roster State Unit) :
    bindings.foldl storeState (bindings.foldl storeState states) =
      bindings.foldl storeState states :=
  Roster.ext_at? rfl (index_storeStates ..) fun slot =>
    updates_storeState.read_foldl_again nodup settles_stored states ⟨slot⟩

theorem settles_storeTags {bindings : List (TagId × Expression)}
    (nodup : (bindings.map Prod.fst).Nodup) (tags : Forest) :
    bindings.foldl storeTag (bindings.foldl storeTag tags) = bindings.foldl storeTag tags := by
  obtain ⟨roots, names, next⟩ := frame_storeTags bindings (bindings.foldl storeTag tags)
  refine Forest.ext_find? roots names next fun id => ?_
  exact updates_storeTag.read_foldl_again nodup (fun binding => settles_boundTag binding.2) tags id

/-- What was refreshed is refreshed already, as long as the graph and the converters stay. -/
theorem refresh_again (linked : repository.graph.tags.Linked)
    (numbered : Numbered repository.graph.states) (blind : repository.converters.Blind)
    (isRefreshed : repository.refresh = .ok refreshed) {later : Repository}
    (graph : later.graph = refreshed.graph) (converters : later.converters = refreshed.converters) :
    later.refresh = .ok later := by
  have same : later.graph.unbound = repository.graph.unbound :=
    graph ▸ unbound_of_refresh isRefreshed
  rw [converters_of_refresh isRefreshed] at converters
  have bind := (bindAlike_of_unbound converters same blind).bind_eq
  obtain ⟨bindings, expressions, areBindings, areExpressions, rfl⟩ :=
    bindings_of_refresh isRefreshed
  have states := congrArg (fun graph => graph.states.members) same
  have tags := congrArg (fun graph => graph.tags) same
  simp only [Graph.unbound, Roster.members_modifyAll] at states tags
  -- Every query is bound to the same as before, so what is stored is there already.
  have bindingsAgain : later.bindStates later.graph.states.members = .ok bindings := by
    rw [← bindStates_unbound, states, bindStates_unbound, bindStates_of_bind bind]
    exact areBindings
  have expressionsAgain : later.bindTags later.graph.tags.all = .ok expressions := by
    rw [← Forest.all_unbound, tags, Forest.all_unbound, bindTags_of_bind bind tags]
    exact areExpressions
  have nodupStates : (bindings.map StateBinding.state).Nodup :=
    (bindings_of_bindStates areBindings).1 ▸ nodup_handles numbered
  have nodupTags : (expressions.map Prod.fst).Nodup :=
    linked.rooted.nodup_all.sublist (bindings_of_bindTags areExpressions).1
  have statesAgain : bindings.foldl storeState later.graph.states = later.graph.states := by
    rw [graph]
    exact settles_storeStates nodupStates _
  have tagsAgain : expressions.foldl storeTag later.graph.tags = later.graph.tags := by
    rw [graph]
    exact settles_storeTags nodupTags _
  simp only [refresh, bindingsAgain, expressionsAgain, ok_bind, statesAgain, tagsAgain]

/-! ## All or nothing -/

/-- The converters are blind in every repository that is reached while only blind ones are
registered. -/
theorem blind_of_reached (reached : Reached (fun _ operation => operation.Blind) repository) :
    repository.converters.Blind := by
  induction reached with
  | empty => exact Converters.blind_builtIn
  | step _ allowed inductionHypothesis =>
      have isKept : OfConverters Converters.Blind _ := inductionHypothesis
      refine (keeps_operation_converters _ ?_ _ isKept).state_apply
      rintro name converter rfl converters blind
      exact blind.register name allowed

theorem apply_refresh (repository : Repository) :
    Operation.refresh.perform.apply repository =
      match repository.refresh with
      | .ok refreshed => (.ok (), refreshed)
      | .error fault => (.error fault, repository) := by
  rw [Operation.perform, Change.apply_bind, Change.apply_ask]
  cases repository.refresh <;> rfl

/-- Refreshing a reachable repository binds every stored query to what its own condition comes to
in that repository, and changes nothing else; or it fails with the fault of a stored query, and
changes nothing.  As long as converters do not read what is stored, a query is bound to the same
afterwards, and refreshing again changes nothing until the graph or the converters change. -/
theorem refreshed_as_whole (reachable : Reachable repository) :
    (∀ refreshed, Operation.refresh.perform.apply repository = (.ok (), refreshed) →
      repository.Refreshed refreshed ∧
        (repository.converters.Blind → refreshed.bind = repository.bind ∧
          ∀ later : Repository, later.graph = refreshed.graph →
            later.converters = refreshed.converters →
            Operation.refresh.perform.apply later = (.ok (), later))) ∧
    ∀ fault left, Operation.refresh.perform.apply repository = (.error fault, left) →
      left = repository ∧
        ∃ query, repository.Stores query ∧ repository.bind query = .error fault := by
  have linked := (Reached.listed reachable).linked
  have numbered := (Reached.ordered reachable).routed.numbered
  constructor
  · intro refreshed performed
    have isRefreshed : repository.refresh = .ok refreshed := by
      rw [apply_refresh] at performed
      cases isRefreshed : repository.refresh with
      | error fault => simp [isRefreshed] at performed
      | ok other => simpa [isRefreshed] using performed
    refine ⟨refreshed_of_refresh linked numbered isRefreshed,
      fun blind => ⟨?_, fun later graph converters => ?_⟩⟩
    · exact (bindAlike_of_unbound (converters_of_refresh isRefreshed)
        (unbound_of_refresh isRefreshed) blind).bind_eq
    · rw [apply_refresh, refresh_again linked numbered blind isRefreshed graph converters]
  · intro fault left performed
    rw [apply_refresh] at performed
    cases failed : repository.refresh with
    | ok refreshed => simp [failed] at performed
    | error other =>
        obtain ⟨rfl, rfl⟩ : other = fault ∧ repository = left := by simpa [failed] using performed
        exact ⟨rfl, fault_of_refresh failed⟩

/-- A tag, a condition and a guard ask for a state that is declared after they were bound. -/
def laterState : Repository :=
  Operation.run
    [.configure ⟨.object [("flag", .object [("expression", .text "urgent")])], [], [], []⟩,
      .addState "done" .plain,
      .addState "open" { StateDeclaration.plain with
        condition := "urgent", transitions := [("done", .text "!urgent")] },
      .refresh, .addState "urgent" .plain]
    .empty

theorem reachable_laterState : Reachable laterState :=
  reachable_run _

/-- The handles of the states that the stored queries of a repository are bound to. -/
def boundStates (repository : Repository) : List (Option StateId) :=
  let queries := repository.graph.states.members.flatMap fun state =>
    state.condition :: state.transitions.map Transition.guard
  let expressions := repository.graph.tags.all.filterMap fun id =>
    (repository.graph.tags.find? id).bind Tag.expression
  (queries ++ expressions).map fun query =>
    match query.bound with
    | some (.state id _) => some id
    | some (.negation (.state id _)) => some id
    | _ => none

/-- There is one more state, whose condition asks for a type that is not declared. -/
def stuckState : Repository :=
  Operation.run [.addState "stuck" { StateDeclaration.plain with condition := "kind:x" }] laterState

theorem reachable_stuckState : Reachable stuckState :=
  Reached.run reachable_laterState (allAllowed_of_all (fun _ _ => trivial) _ _)

/-- The condition, the guard and the expression find the state once they are refreshed, and stay
so when refreshed again; they all stay as they were beside a condition that cannot be bound. -/
theorem refreshed_as_whole_laterState :
    laterState.boundStates = [none, none, none, none, none] ∧
      (∃ refreshed, Operation.refresh.perform.apply laterState = (.ok (), refreshed) ∧
        laterState.Refreshed refreshed ∧
        refreshed.boundStates = [none, some ⟨2⟩, some ⟨2⟩, none, some ⟨2⟩] ∧
        Operation.refresh.perform.apply refreshed = (.ok (), refreshed)) ∧
      ∃ fault, Operation.refresh.perform.apply stuckState = (.error fault, stuckState) := by
  have blind : laterState.converters.Blind :=
    blind_of_reached (Reached.empty.run (by simp [AllAllowed, Operation.Blind]))
  have bound : ((Operation.refresh.perform.apply laterState).1.toOption,
      (Operation.refresh.perform.apply laterState).2.boundStates) =
        (some (), [none, some ⟨2⟩, some ⟨2⟩, none, some ⟨2⟩]) := by
    decide +kernel
  have fails : (Operation.refresh.perform.apply stuckState).1.toOption = none := by
    decide +kernel
  obtain ⟨whole, -⟩ := refreshed_as_whole reachable_laterState
  obtain ⟨-, nothing⟩ := refreshed_as_whole reachable_stuckState
  refine ⟨by decide +kernel, ?_, ?_⟩
  · rcases outcome : Operation.refresh.perform.apply laterState with ⟨answer, refreshed⟩
    rw [outcome] at bound
    obtain ⟨succeeds, states⟩ := Prod.mk.inj bound
    obtain rfl := eq_ok_of_toOption succeeds
    obtain ⟨isRefreshed, again⟩ := whole refreshed outcome
    exact ⟨refreshed, rfl, isRefreshed, states, (again blind).2 refreshed rfl rfl⟩
  · rcases outcome : Operation.refresh.perform.apply stuckState with ⟨answer, left⟩
    rw [outcome] at fails
    cases answer with
    | ok => cases fails
    | error fault =>
        obtain ⟨unchanged, -⟩ := nothing fault left outcome
        exact ⟨fault, by rw [unchanged]⟩

end Repository

end LifecycleGraph
