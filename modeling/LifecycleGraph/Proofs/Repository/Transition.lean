import LifecycleGraph.Proofs.Repository.Elementary
import LifecycleGraph.Proofs.Repository.Run

/-!
# Transitions of configured states

In data as it is read no object has a name twice.  The transitions of a state are declared under
the names of the states that they lead to, so where a repository is configured with such data no
two transitions of a state have the same ends.
-/

set_option autoImplicit false

namespace LifecycleGraph

/-! ## Data without doubled names -/

namespace Json

/-- No object of the data has a name twice. -/
inductive Keyed : Json → Prop where
  | null : Keyed .null
  | boolean (value : Bool) : Keyed (.boolean value)
  | integer (value : Int) : Keyed (.integer value)
  | float (value : Float) : Keyed (.float value)
  | text (value : String) : Keyed (.text value)
  | array {items : List Json} : (∀ item ∈ items, Keyed item) → Keyed (.array items)
  | object {members : Members} : (members.map Prod.fst).Nodup →
      (∀ entry ∈ members, Keyed entry.2) → Keyed (.object members)

/-- The fields of a record are such data again. -/
theorem keyed_of_record? {fields : List String} {data : Json} {values : List (Option Json)}
    (areFields : data.record? fields = some values) (keyed : data.Keyed) :
    ∀ value, some value ∈ values → value.Keyed := by
  intro value member
  cases keyed with
  | object _ entries =>
      obtain rfl := Option.some.inj areFields
      obtain ⟨field, -, isMember⟩ := List.mem_map.mp member
      obtain ⟨entry, found, rfl⟩ := Option.map_eq_some_iff.mp isMember
      exact entries entry (List.mem_of_find?_eq_some found)
  | @array items each =>
      rw [record?] at areFields
      split at areFields
      · obtain rfl := Option.some.inj areFields
        rcases List.mem_append.mp member with isItem | isAbsent
        · obtain ⟨item, inItems, same⟩ := List.mem_map.mp isItem
          cases same
          exact each value inItems
        · cases (List.mem_replicate.mp isAbsent).2
      · cases areFields
  | _ => cases areFields

theorem nodup_of_members {field : Option Json} {members : Members}
    (read : fieldOr [] members? field = some members)
    (keyed : ∀ value, field = some value → value.Keyed) : (members.map Prod.fst).Nodup := by
  cases field with
  | none =>
      cases read
      exact List.nodup_nil
  | some data =>
      cases keyed data rfl with
      | object nodup _ =>
          cases read
          exact nodup
      | _ => cases read

end Json

namespace StateDeclaration

/-- The transitions of a state have the names of different states. -/
theorem nodup_of_keyed {data : Json} {declaration : StateDeclaration}
    (isRead : ofJson data = .ok declaration) (keyed : data.Keyed) :
    (declaration.transitions.map Prod.fst).Nodup := by
  unfold ofJson at isRead
  split at isRead
  · cases isRead
    exact List.nodup_nil
  · cases isRead
    exact List.nodup_nil
  · split at isRead
    · rename_i found
      cases isRead
      obtain ⟨fields, areFields, isDeclared⟩ := Option.bind_eq_some_iff.mp found
      have each := Json.keyed_of_record? areFields keyed
      unfold ofFields? at isDeclared
      split at isDeclared
      · simp only [bind, Option.bind_eq_some_iff, Option.some.injEq] at isDeclared
        obtain ⟨_, -, _, -, _, -, transitions, areTransitions, _, -, rfl⟩ := isDeclared
        exact Json.nodup_of_members areTransitions fun value isField =>
          each value (by simp [isField])
      · cases isDeclared
    · cases isRead

theorem names_of_transitionDeclarations {declaration : StateDeclaration}
    {declarations : List (String × Option TransitionDeclaration)}
    (areDeclared : declaration.transitionDeclarations = .ok declarations) :
    declarations.map Prod.fst = declaration.transitions.map Prod.fst := by
  rw [transitionDeclarations] at areDeclared
  generalize declaration.transitions = transitions at areDeclared ⊢
  induction transitions generalizing declarations with
  | nil =>
      cases areDeclared
      rfl
  | cons entry rest inductionHypothesis =>
      obtain ⟨target, data⟩ := entry
      rw [List.mapM_cons] at areDeclared
      obtain ⟨first, isFirst, areDeclared⟩ := exists_of_bind_eq_ok areDeclared
      obtain ⟨others, areOthers, same⟩ := exists_of_bind_eq_ok areDeclared
      cases same
      have name : first.1 = target := by
        simp only at isFirst
        split at isFirst
        · cases isFirst
          rfl
        · split at isFirst
          · cases isFirst
            rfl
          · cases isFirst
      rw [List.map_cons, List.map_cons, name, inductionHypothesis areOthers]

end StateDeclaration

/-! ## Different ends -/

namespace Graph

/-- No two transitions of a state have the same ends. -/
def Forked (states : Roster State Unit) : Prop :=
  ∀ slot state, states.at? slot = some state → (state.transitions.map ends).Nodup

variable {states : Roster State Unit}

theorem forked_empty (owner : Unit) : Forked (.empty owner) := by
  intro slot state found
  cases found

theorem Forked.insert (forked : Forked states) (name : String) :
    Forked (states.insert name .declared).1 := by
  intro slot state found
  rw [Roster.at?_insert] at found
  split at found
  · cases found
    exact List.nodup_nil
  · exact forked slot state found

theorem Forked.modifyAt (forked : Forked states) (slot : Nat) {change : State → State}
    (nodup : ∀ state, ((change state).transitions.map ends).Nodup) :
    Forked (states.modifyAt slot change) := by
  intro other state found
  rw [Roster.at?_modifyAt] at found
  split at found
  · obtain ⟨before, -, rfl⟩ := Option.map_eq_some_iff.mp found
    exact nodup before
  · exact forked other state found

/-- The ends of the transitions of a state tell whether they are different. -/
theorem Forked.modifyEnds (forked : Forked states) (slot : Nat) {change : State → State}
    (same : ∀ state, (change state).transitions.map ends = state.transitions.map ends) :
    Forked (states.modifyAt slot change) := by
  intro other state found
  rw [Roster.at?_modifyAt] at found
  split at found
  · obtain ⟨before, isBefore, rfl⟩ := Option.map_eq_some_iff.mp found
    rw [same]
    exact forked other before isBefore
  · exact forked other state found

theorem elementary_forked : Elementary fun graph => Forked graph.states where
  touch _ _ _ forked := forked
  list _ forked := forked
  move _ _ _ _ _ forked := forked
  describe _ _ _ _ forked := forked
  enroll _ _ _ forked := forked
  discard _ forked := forked
  prune _ _ forked := forked
  grown _ forked := forked

end Graph

namespace Repository

open Graph

variable {repository : Repository}

/-- Transitions that are declared for different names have different ends. -/
theorem nodup_ends_of_resolveTransitions {name : String} {source : StateId}
    {declarations : List (String × Option TransitionDeclaration)} {transitions : List Transition}
    (nodup : (declarations.map Prod.fst).Nodup)
    (resolved : repository.resolveTransitions name source declarations = .ok transitions) :
    (transitions.map ends).Nodup ∧ ∀ transition ∈ transitions, ∃ entry ∈ declarations,
      repository.graph.stateId? entry.1 = some transition.target := by
  induction declarations generalizing transitions with
  | nil =>
      cases resolved
      exact ⟨List.nodup_nil, fun _ member => by cases member⟩
  | cons declaration rest inductionHypothesis =>
      obtain ⟨targetName, declaration⟩ := declaration
      rw [resolveTransitions] at resolved
      split at resolved
      · rename_i target isTarget
        obtain ⟨_, same, resolved⟩ := exists_of_bind_eq_ok resolved
        cases same
        obtain ⟨guard, -, resolved⟩ := exists_of_bind_eq_ok resolved
        obtain ⟨others, areOthers, same⟩ := exists_of_bind_eq_ok resolved
        cases same
        obtain ⟨isNew, nodup⟩ := List.nodup_cons.mp nodup
        obtain ⟨different, known⟩ := inductionHypothesis nodup areOthers
        refine ⟨List.nodup_cons.mpr ⟨fun member => ?_, different⟩, fun transition member => ?_⟩
        · obtain ⟨other, inOthers, sameEnds⟩ := List.mem_map.mp member
          obtain ⟨entry, inRest, isOther⟩ := known other inOthers
          have sameTarget : other.target = target := (Prod.mk.inj sameEnds).2
          rw [sameTarget] at isOther
          obtain ⟨slot, atSlot, isSlot⟩ := Option.map_eq_some_iff.mp isTarget
          obtain ⟨slot', atSlot', isSlot'⟩ := Option.map_eq_some_iff.mp isOther
          cases isSlot.trans isSlot'.symm
          exact isNew (List.mem_map.mpr ⟨entry, inRest, Roster.eq_of_slotOf? atSlot' atSlot⟩)
        · rcases List.mem_cons.mp member with rfl | inOthers
          · exact ⟨_, List.mem_cons_self .., isTarget⟩
          · obtain ⟨entry, inRest, isTarget⟩ := known transition inOthers
            exact ⟨entry, List.mem_cons_of_mem _ inRest, isTarget⟩
      · cases resolved

theorem keeps_declareState_forked (name : String) :
    (declareState name).Keeps fun graph => Forked graph.states := by
  intro graph forked
  rw [declareState, Change.leads_ofFunction]
  cases graph.stateId? name with
  | some id => exact forked
  | none => exact forked.insert name

theorem keeps_defineState_forked (name : String) {declaration : StateDeclaration}
    (nodup : (declaration.transitions.map Prod.fst).Nodup) :
    (defineState name declaration).Keeps (OfGraph fun graph => Forked graph.states) := by
  rw [defineState]
  refine (keeps_onGraph (keeps_declareState_forked name)).bind fun id => ?_
  refine (Change.keeps_ask _).bind fun condition => ?_
  intro repository forked
  refine Change.leads_ask_bind (fun transitions isAnswer => ?_) fun _ _ => forked
  obtain ⟨declarations, areDeclared, resolved⟩ := exists_of_bind_eq_ok isAnswer
  rw [← StateDeclaration.names_of_transitionDeclarations areDeclared] at nodup
  obtain ⟨different, -⟩ := nodup_ends_of_resolveTransitions nodup resolved
  refine ((Change.keeps_ask _).bind fun services => ?_) repository forked
  refine (keeps_onGraph (Change.keeps_modify fun graph forked => ?_)).bind fun _ =>
    Change.keeps_pure _
  exact Forked.modifyAt forked id.index fun _ => different

theorem forked_storeStates (bindings : List StateBinding) {states : Roster State Unit}
    (forked : Forked states) : Forked (bindings.foldl storeState states) := by
  induction bindings generalizing states with
  | nil => exact forked
  | cons binding rest inductionHypothesis =>
      exact inductionHypothesis
        (forked.modifyEnds _ fun state => ends_storeGuards state.transitions _)

theorem forked_of_refresh {refreshed : Repository} (forked : Forked repository.graph.states)
    (isRefreshed : repository.refresh = .ok refreshed) : Forked refreshed.graph.states := by
  obtain ⟨states, -, -, -, rfl⟩ := bindings_of_refresh isRefreshed
  exact forked_storeStates states forked

end Repository

/-! ## Repositories that are configured with such data -/

/-- The data that states are configured with has no name twice. -/
def Operation.Keyed : Operation → Prop
  | configure content => ∀ entry ∈ content.states, entry.2.Keyed
  | addState _ declaration => (declaration.transitions.map Prod.fst).Nodup
  | _ => True

/-- Reached with data in which no object has a name twice. -/
def KeyedReachable : Repository → Prop := Reached fun _ operation => operation.Keyed

theorem KeyedReachable.run {repository : Repository} (reachable : KeyedReachable repository)
    {operations : List Operation} (keyed : ∀ operation ∈ operations, operation.Keyed) :
    KeyedReachable (Operation.run operations repository) := by
  induction operations generalizing repository with
  | nil => exact reachable
  | cons operation rest inductionHypothesis =>
      exact inductionHypothesis (reachable.step (keyed operation (List.mem_cons_self ..)))
        fun other member => keyed other (List.mem_cons_of_mem _ member)

open Graph Repository in
/-- In every repository that is reached with such data the transitions of a state have different
ends. -/
theorem KeyedReachable.forked {repository : Repository} (reachable : KeyedReachable repository) :
    Forked repository.graph.states := by
  let kept (graph : Graph) : Prop := graph.Listed ∧ Forked graph.states
  have tended : Tended kept := elementary_forked.tended
  have listed : Extending Listed := maintained_listed.toExtending
  have reshaped {old new : Graph} (both : kept old) (reshapes : old.Reshapes new) : kept new := by
    refine ⟨both.1.reshape reshapes, ?_⟩
    rw [reshapes.states]
    exact both.2
  have refreshed {old new : Repository} (both : OfGraph kept old)
      (isRefreshed : old.refresh = .ok new) : OfGraph kept new :=
    ⟨kept_refresh listed both.1 isRefreshed, forked_of_refresh both.2 isRefreshed⟩
  have defines (name : String) {declaration : StateDeclaration}
      (nodup : (declaration.transitions.map Prod.fst).Nodup) :
      (defineState name declaration).Keeps (OfGraph kept) :=
    (keeps_definedState listed name declaration).and (keeps_defineState_forked name nodup)
  have both : kept repository.graph :=
    Reached.tends tended (fun repository => ⟨(bare_clear repository).listed, forked_empty _⟩)
      reshaped refreshed
      (fun name => (keeps_declaredState listed name).and (keeps_declareState_forked name))
      (fun _ _ keyed entry isEntry _ isRead =>
        defines entry.1 (StateDeclaration.nodup_of_keyed isRead (keyed entry isEntry)))
      (fun _ name _ keyed => defines name keyed) reachable
  exact both.2

end LifecycleGraph
