import LifecycleGraph.Proofs.Change
import LifecycleGraph.Proofs.Forest.Growth
import LifecycleGraph.Proofs.Graph.Schema
import LifecycleGraph.Repository.Declaration

/-!
# Declaring types and states

Declaring and defining types leaves nodes, tags and states alone, adds an empty
row of nodes for each new type, and keeps the schema well formed, also where it
is stopped on its way.  A type of a new name leaves the other types as they were.
Declaring and defining states leaves all else alone, and every transition leaves
from the state that it is defined for and leads to a declared one, also when
guards are bound anew.  Names keep the handles they were given.
-/

set_option autoImplicit false

namespace LifecycleGraph

namespace Graph

/-- The row of a type without nodes. -/
def emptyRow : TypeMembers := ⟨.empty, .empty⟩

/-- The second graph is the first one with other types. -/
structure Reshapes (old new : Graph) : Prop where
  typed : old.Typed → new.Typed
  catalogued : old.Catalogued → new.Catalogued
  rows : ∃ count, new.typeMembers = old.typeMembers ++ List.replicate count emptyRow ∧
    new.types.size = old.types.size + count
  names : old.types.names <+: new.types.names
  tags : new.tags = old.tags
  states : new.states = old.states
  nodes : new.nodes = old.nodes
  stateMembers : new.stateMembers = old.stateMembers
  tagMembers : new.tagMembers = old.tagMembers

variable {graph : Graph}

theorem Reshapes.refl (graph : Graph) : graph.Reshapes graph :=
  ⟨id, id, ⟨0, by simp, rfl⟩, List.prefix_refl _, rfl, rfl, rfl, rfl, rfl⟩

theorem Reshapes.trans {first second third : Graph} (one : first.Reshapes second)
    (two : second.Reshapes third) : first.Reshapes third where
  typed := two.typed ∘ one.typed
  catalogued := two.catalogued ∘ one.catalogued
  rows := by
    obtain ⟨count, rows, size⟩ := one.rows
    obtain ⟨count', rows', size'⟩ := two.rows
    refine ⟨count + count', ?_, by omega⟩
    rw [rows', rows, List.append_assoc, List.replicate_append_replicate]
  names := one.names.trans two.names
  tags := two.tags.trans one.tags
  states := two.states.trans one.states
  nodes := two.nodes.trans one.nodes
  stateMembers := two.stateMembers.trans one.stateMembers
  tagMembers := two.tagMembers.trans one.tagMembers

/-- A graph with a type of a new name. -/
def withType (graph : Graph) (name : String) : Graph :=
  { graph with
    types := (graph.types.insert name (.declared ⟨graph.types.size⟩)).1
    typeMembers := graph.typeMembers ++ [emptyRow] }

theorem slotOf?_of_typeId? {name : String} (new : graph.typeId? name = none) :
    graph.types.slotOf? name = none :=
  Option.map_eq_none_iff.mp new

theorem type?_withType {name : String} (new : graph.typeId? name = none) (id : TypeId) :
    (graph.withType name).type? id =
      if id.index = graph.types.size then
        some { NodeType.declared ⟨graph.types.size⟩ with name, id := ⟨graph.types.size⟩ }
      else graph.type? id := by
  have slot : (graph.types.insert name (.declared ⟨graph.types.size⟩)).2 = graph.types.size := by
    rw [Roster.insert_of_new _ (slotOf?_of_typeId? new)]
  simp only [withType, type?, Roster.at?_insert, slot]
  split
  · rename_i same
    rw [same]
    rfl
  · rfl

theorem declares_withType {name : String} (new : graph.typeId? name = none) :
    graph.Declares (graph.withType name) where
  size_le := by
    have size := Roster.size_insert_of_new (NodeType.declared ⟨graph.types.size⟩)
      (slotOf?_of_typeId? new)
    simp only [withType, size]
    omega
  kept := by
    intro id type found
    have below := lt_size_of_type? found
    rw [type?_withType new, if_neg (Nat.ne_of_lt below), found]

theorem reshapes_withType {name : String} (new : graph.typeId? name = none) :
    graph.Reshapes (graph.withType name) where
  typed := by
    intro typed
    have size : (graph.withType name).types.size = graph.types.size + 1 :=
      Roster.size_insert_of_new _ (slotOf?_of_typeId? new)
    refine ⟨?_, ?_, ?_, typed.keyed.insert name fun _ => rfl⟩
    · intro id type found
      rw [type?_withType new] at found
      split at found
      · rename_i same
        cases found
        obtain ⟨index⟩ := id
        cases same
        exact ⟨rfl, rfl⟩
      · exact typed.stamped found
    · intro id type slot property found atSlot
      rw [type?_withType new] at found
      split at found
      · cases found
        cases atSlot
      · exact typed.entered found atSlot
    · intro id base above
      rw [base?, type?_withType new] at above
      split at above
      · cases above
      · have := typed.based above
        omega
  catalogued := by
    intro catalogued id type found
    rw [type?_withType new] at found
    split at found
    · cases found
      exact Roster.keyed_empty Property.name _
    · exact catalogued id type found
  rows := ⟨1, rfl, Roster.size_insert_of_new _ (slotOf?_of_typeId? new)⟩
  names := Roster.names_insert ..
  tags := rfl
  states := rfl
  nodes := rfl
  stateMembers := rfl
  tagMembers := rfl

/-! ## Transitions and their states -/

/-- The transitions of every state leave from that state. -/
def Sourced (states : Roster State Unit) : Prop :=
  ∀ slot state, states.at? slot = some state →
    ∀ transition ∈ state.transitions, transition.source = ⟨slot⟩

/-- The transitions of every state lead to states. -/
def Targeted (states : Roster State Unit) : Prop :=
  ∀ slot state, states.at? slot = some state →
    ∀ transition ∈ state.transitions, transition.target.index < states.size

/-- Every state has the handle that leads to it. -/
def Numbered (states : Roster State Unit) : Prop :=
  ∀ slot state, states.at? slot = some state → state.id = ⟨slot⟩

structure Routed (states : Roster State Unit) : Prop where
  sourced : Sourced states
  targeted : Targeted states
  keyed : states.Keyed State.name
  numbered : Numbered states

theorem routed_empty (owner : Unit) : Routed (.empty owner) where
  sourced slot state found := by cases found
  targeted slot state found := by cases found
  keyed := Roster.keyed_empty State.name owner
  numbered slot state found := by cases found

/-- Where a transition leaves from and where it leads to. -/
def ends (transition : Transition) : StateId × StateId := (transition.source, transition.target)

/-- What becomes of states that are declared, defined or bound anew. -/
structure Revises (old new : Roster State Unit) : Prop where
  names : old.names <+: new.names
  routed : Routed old → Routed new

namespace Revises

variable {states new : Roster State Unit}

theorem size_le (revises : Revises states new) : states.size ≤ new.size := by
  rw [← Roster.length_names, ← Roster.length_names]
  exact revises.names.length_le

theorem refl (states : Roster State Unit) : Revises states states := ⟨List.prefix_refl _, id⟩

theorem trans {third : Roster State Unit} (one : Revises states new) (two : Revises new third) :
    Revises states third :=
  ⟨one.names.trans two.names, two.routed ∘ one.routed⟩

theorem insert (states : Roster State Unit) (name : String) :
    Revises states (states.insert name .declared).1 := by
  have names := Roster.names_insert states name .declared
  have size_le : states.size ≤ (states.insert name .declared).1.size := by
    simpa only [← Roster.length_names] using names.length_le
  refine ⟨names, fun routed => ⟨?_, ?_, routed.keyed.insert name fun _ => rfl, ?_⟩⟩
  · intro slot state found
    rw [Roster.at?_insert] at found
    split at found
    · cases found
      intro transition member
      cases member
    · exact routed.sourced slot state found
  · intro slot state found
    rw [Roster.at?_insert] at found
    split at found
    · cases found
      intro transition member
      cases member
    · intro transition member
      exact Nat.lt_of_lt_of_le (routed.targeted slot state found transition member) size_le
  · intro slot state found
    rw [Roster.at?_insert] at found
    split at found
    · cases found
      rfl
    · exact routed.numbered slot state found

theorem numbered_modifyAt (numbered : Numbered states) (slot : Nat) {change : State → State}
    (kept : ∀ state, (change state).id = state.id) : Numbered (states.modifyAt slot change) := by
  intro other state found
  rw [Roster.at?_modifyAt] at found
  split at found
  · obtain ⟨before, isBefore, rfl⟩ := Option.map_eq_some_iff.mp found
    exact (kept before).trans (numbered other before isBefore)
  · exact numbered other state found

theorem adjust {id : StateId} {change : State → State}
    (kept : ∀ state, (change state).name = state.name ∧ (change state).id = state.id)
    (leaves : ∀ state, ∀ transition ∈ (change state).transitions,
      transition.source = id ∧ transition.target.index < states.size) :
    Revises states (states.modifyAt id.index change) := by
  refine ⟨(Roster.names_modifyAt ..).symm ▸ List.prefix_refl _, fun routed =>
    ⟨?_, ?_, routed.keyed.modifyAt id.index fun state => (kept state).1,
      numbered_modifyAt routed.numbered id.index fun state => (kept state).2⟩⟩
  · intro slot state found
    rw [Roster.at?_modifyAt] at found
    split at found
    · rename_i same
      obtain ⟨before, -, rfl⟩ := Option.map_eq_some_iff.mp found
      rw [same]
      exact fun transition member => (leaves before transition member).1
    · exact routed.sourced slot state found
  · intro slot state found transition member
    rw [Roster.at?_modifyAt] at found
    rw [Roster.size_modifyAt]
    split at found
    · obtain ⟨before, -, rfl⟩ := Option.map_eq_some_iff.mp found
      exact (leaves before transition member).2
    · exact routed.targeted slot state found transition member

/-- Where transitions leave from and lead to is seen from their ends. -/
theorem modifyEnds (states : Roster State Unit) (slot : Nat) {change : State → State}
    (kept : ∀ state, (change state).name = state.name ∧ (change state).id = state.id)
    (same : ∀ state, (change state).transitions.map ends = state.transitions.map ends) :
    Revises states (states.modifyAt slot change) := by
  have before {other : Nat} {state : State}
      (found : (states.modifyAt slot change).at? other = some state) {transition : Transition}
      (member : transition ∈ state.transitions) : ∃ old, states.at? other = some old ∧
        ∃ alike ∈ old.transitions, ends alike = ends transition := by
    rw [Roster.at?_modifyAt] at found
    split at found
    · obtain ⟨old, isOld, rfl⟩ := Option.map_eq_some_iff.mp found
      have isEnd : ends transition ∈ old.transitions.map ends :=
        same old ▸ List.mem_map_of_mem member
      exact ⟨old, isOld, List.mem_map.mp isEnd⟩
    · exact ⟨state, found, transition, member, rfl⟩
  refine ⟨(Roster.names_modifyAt ..).symm ▸ List.prefix_refl _, fun routed =>
    ⟨?_, ?_, routed.keyed.modifyAt slot fun state => (kept state).1,
      numbered_modifyAt routed.numbered slot fun state => (kept state).2⟩⟩
  · intro other state found transition member
    obtain ⟨old, isOld, alike, isAlike, sameEnds⟩ := before found member
    exact (Prod.mk.inj sameEnds).1 ▸ routed.sourced other old isOld alike isAlike
  · intro other state found transition member
    obtain ⟨old, isOld, alike, isAlike, sameEnds⟩ := before found member
    rw [← (Prod.mk.inj sameEnds).2, Roster.size_modifyAt]
    exact routed.targeted other old isOld alike isAlike

end Revises

end Graph

namespace Repository

open Graph

/-- What is kept of the graph of a repository. -/
def OfGraph (kept : Graph → Prop) (repository : Repository) : Prop := kept repository.graph

theorem keeps_onGraph {α : Type} {change : Change Graph α} {kept : Graph → Prop}
    (keeps : change.Keeps kept) : (onGraph change).Keeps (OfGraph kept) :=
  Change.keeps_within fun repository => keeps repository.graph

theorem leads_onGraph {α : Type} {change : Change Graph α} {repository : Repository}
    {post : α → Graph → Prop} {stopped : Graph → Prop}
    (leads : change.Leads repository.graph post stopped) :
    (onGraph change).Leads repository (fun answer => OfGraph (post answer)) (OfGraph stopped) :=
  Change.leads_within leads

/-- Declaring is never stopped; a new name is given the next handle. -/
theorem leads_declareType (name : String) (graph : Graph) :
    (declareType name).Leads graph
      (fun id changed => graph.typeId? name = some id ∧ changed = graph ∨
        graph.typeId? name = none ∧ id = ⟨graph.types.size⟩ ∧ changed = graph.withType name)
      (fun _ => False) := by
  rw [declareType, Change.leads_ofFunction]
  cases known : graph.typeId? name with
  | some id => exact .inl ⟨rfl, rfl⟩
  | none => exact .inr ⟨rfl, rfl, rfl⟩

/-! ## Defining a type -/

/-- Properties that are entered carry their handles. -/
def Entered (roster : Roster Property TypeId) : Prop :=
  ∀ slot property, roster.at? slot = some property → property.id = ⟨roster.owner, slot⟩

theorem Entered.insert {roster : Roster Property TypeId} (entered : Entered roster) (name : String)
    (property : Property) : Entered (roster.insert name property).1 := by
  intro slot held atSlot
  rw [Roster.owner_insert]
  rw [Roster.at?_insert] at atSlot
  split at atSlot
  · cases atSlot
    rfl
  · exact entered slot held atSlot

theorem entered_enterAll (properties : List (String × Property)) (roster : Roster Property TypeId)
    (entered : Entered roster) :
    (properties.foldl (fun roster entry => (roster.insert entry.1 entry.2).1) roster).owner =
        roster.owner ∧
      Entered (properties.foldl (fun roster entry => (roster.insert entry.1 entry.2).1)
        roster) := by
  induction properties generalizing roster with
  | nil => exact ⟨rfl, entered⟩
  | cons entry rest inductionHypothesis =>
      obtain ⟨owners, allEntered⟩ := inductionHypothesis _ (entered.insert entry.1 entry.2)
      exact ⟨owners.trans (Roster.owner_insert ..), allEntered⟩

theorem keyed_enterAll (properties : List (String × Property)) {roster : Roster Property TypeId}
    (keyed : roster.Keyed Property.name) :
    (properties.foldl (fun roster entry => (roster.insert entry.1 entry.2).1) roster).Keyed
      Property.name := by
  induction properties generalizing roster with
  | nil => exact keyed
  | cons entry rest inductionHypothesis =>
      exact inductionHypothesis (keyed.insert entry.1 fun _ => rfl)

theorem type?_adjustType (id other : TypeId) (change : NodeType → NodeType) (graph : Graph) :
    (adjustType id change graph).type? other =
      if other = id then (graph.type? other).map change else graph.type? other := by
  obtain ⟨index⟩ := id
  obtain ⟨otherIndex⟩ := other
  simp only [adjustType, type?, Roster.at?_modifyAt, TypeId.mk.injEq]

theorem reshapes_define {graph : Graph} (id : TypeId) {base : Option TypeId} (description : String)
    (properties : List (String × Property))
    (declared : ∀ above, base = some above → above.index < graph.types.size) :
    graph.Reshapes (adjustType id (defineAs base description properties) graph) where
  typed := by
    intro typed
    have cleared (type : NodeType) := entered_enterAll properties type.properties.clear
      fun slot property atSlot => by cases atSlot
    have known {other : TypeId} {type : NodeType}
        (found : (adjustType id (defineAs base description properties) graph).type? other =
          some type) :
        graph.type? other = some type ∨ ∃ before, graph.type? other = some before ∧
          type = defineAs base description properties before := by
      rw [type?_adjustType] at found
      split at found
      · obtain ⟨before, isBefore, same⟩ := Option.map_eq_some_iff.mp found
        exact .inr ⟨before, isBefore, same.symm⟩
      · exact .inl found
    have size : (adjustType id (defineAs base description properties) graph).types.size =
        graph.types.size := Roster.size_modifyAt ..
    refine ⟨?_, ?_, ?_, typed.keyed.modifyAt id.index fun _ => rfl⟩
    · intro other type found
      rcases known found with same | ⟨before, isBefore, rfl⟩
      · exact typed.stamped same
      · obtain ⟨stamp, owner⟩ := typed.stamped isBefore
        exact ⟨stamp, (cleared before).1.trans owner⟩
    · intro other type slot property found atSlot
      rcases known found with same | ⟨before, isBefore, rfl⟩
      · exact typed.entered same atSlot
      · have handle := (cleared before).2 slot property atSlot
        rw [(cleared before).1] at handle
        exact handle.trans (by rw [← (typed.stamped isBefore).2]; rfl)
    · intro other above isBase
      obtain ⟨type, found, isAbove⟩ := Option.bind_eq_some_iff.mp isBase
      rw [size]
      rcases known found with same | ⟨before, isBefore, rfl⟩
      · exact typed.based (Option.bind_eq_some_iff.mpr ⟨type, same, isAbove⟩)
      · exact declared above isAbove
  catalogued := by
    intro catalogued other type found
    rw [type?_adjustType] at found
    split at found
    · obtain ⟨before, -, rfl⟩ := Option.map_eq_some_iff.mp found
      exact keyed_enterAll properties (Roster.keyed_empty Property.name _)
    · exact catalogued other type found
  rows := ⟨0, by simp [adjustType], Roster.size_modifyAt ..⟩
  names := ⟨[], by rw [List.append_nil, adjustType, Roster.names_modifyAt]⟩
  tags := rfl
  states := rfl
  nodes := rfl
  stateMembers := rfl
  tagMembers := rfl

/-- What defining a type makes of a graph: a further type where the name is new, and where it is
known another definition of the type that has it. -/
structure Defines (name : String) (old new : Graph) : Prop where
  reshapes : old.Reshapes new
  declares : old.typeId? name = none → old.Declares new
  others : ∀ id, old.typeId? name = some id → ∀ other, other ≠ id →
    new.type? other = old.type? other

theorem lt_size_of_resolveBase {repository : Repository} {name : String} {declared : Option String}
    {base : Option TypeId} (resolved : repository.resolveBase name declared = .ok base)
    (above : TypeId) (isBase : base = some above) :
    above.index < repository.graph.types.size := by
  subst isBase
  unfold resolveBase at resolved
  split at resolved
  · cases resolved
  · split at resolved
    · rename_i id found
      cases resolved
      exact lt_size_of_typeId? found
    · cases resolved

theorem leads_defineType (name : String) (declaration : TypeDeclaration) (repository : Repository) :
    (defineType name declaration).Leads repository
      (fun _ => OfGraph (Defines name repository.graph))
      (OfGraph (Defines name repository.graph)) := by
  -- A new type is the last one, which is why its base and its definition change no other.
  let start := repository.graph
  let mid (id : TypeId) (changed : Graph) : Prop :=
    Defines name start changed ∧ (start.typeId? name = none → id.index = start.types.size) ∧
      ∀ known, start.typeId? name = some known → id = known
  rw [defineType]
  refine Change.leads_bind (fun id => OfGraph (mid id))
    ((leads_onGraph (leads_declareType name start)).imp ?_ fun _ stopped => stopped.elim) ?_
  · intro id changed outcome
    obtain ⟨known, same⟩ | ⟨new, rfl, same⟩ := outcome
    · rw [OfGraph, same]
      refine ⟨⟨.refl start, fun _ => .of_types rfl, fun _ _ _ _ => rfl⟩,
        fun new => by simp [known] at new, fun other isOther => ?_⟩
      exact Option.some.inj (known.symm.trans isOther)
    · rw [OfGraph, same]
      exact ⟨⟨reshapes_withType new, fun _ => declares_withType new,
        fun _ known => by simp [new] at known⟩, fun _ => rfl, fun _ known => by simp [new] at known⟩
  intro id changed reached
  refine Change.leads_ask_bind (fun base resolved => ?_) fun _ _ => reached.1
  refine Change.leads_ask_bind (fun properties _ => ?_) fun _ _ => reached.1
  obtain ⟨⟨reshaped, declares, others⟩, next, only⟩ := reached
  have defined := reshapes_define id declaration.description properties
    (lt_size_of_resolveBase resolved)
  refine Change.leads_bind
    (fun _ => OfGraph (Defines name start))
    (leads_onGraph (Change.leads_modify ⟨reshaped.trans defined, fun new => ?_,
      fun known isKnown other different => ?_⟩)) fun _ _ kept => kept
  · have isNext := next new
    have before := declares new
    refine ⟨?_, fun {other type} found => ?_⟩
    · obtain ⟨count, -, size⟩ := (reshaped.trans defined).rows
      omega
    · have below := lt_size_of_type? found
      rw [type?_adjustType, if_neg (by rintro rfl; omega), before.kept found]
  · rw [type?_adjustType, if_neg (only known isKnown ▸ different),
      others known isKnown other different]

theorem leads_addNodeType (name : String) (declaration : TypeDeclaration)
    (repository : Repository) :
    (addNodeType name declaration).Leads repository
      (fun _ => OfGraph (Defines name repository.graph))
      (OfGraph (Defines name repository.graph)) := by
  rw [addNodeType]
  refine Change.leads_bind _ (leads_defineType name declaration repository)
    fun id changed defined => ?_
  exact Change.leads_ask_bind (fun _ _ => Change.leads_pure defined) fun _ _ => defined

/-! ## States -/

theorem ends_of_resolveTransitions {repository : Repository} {name : String} {source : StateId}
    {declarations : List (String × Option TransitionDeclaration)} {transitions : List Transition}
    (resolved : repository.resolveTransitions name source declarations = .ok transitions) :
    ∀ transition ∈ transitions, transition.source = source ∧
      transition.target.index < repository.graph.states.size := by
  induction declarations generalizing transitions with
  | nil =>
      cases resolved
      intro transition member
      cases member
  | cons declaration rest inductionHypothesis =>
      obtain ⟨targetName, declaration⟩ := declaration
      rw [resolveTransitions] at resolved
      split at resolved
      · rename_i target isTarget
        obtain ⟨target', same, resolved⟩ := exists_of_bind_eq_ok resolved
        cases same
        obtain ⟨guard, -, resolved⟩ := exists_of_bind_eq_ok resolved
        obtain ⟨others, areOthers, same⟩ := exists_of_bind_eq_ok resolved
        cases same
        intro transition member
        rcases List.mem_cons.mp member with rfl | inOthers
        · obtain ⟨slot, atSlot, rfl⟩ := Option.map_eq_some_iff.mp isTarget
          exact ⟨rfl, Roster.lt_size_of_slotOf? atSlot⟩
        · exact inductionHypothesis areOthers transition inOthers
      · cases resolved

/-- States may be declared and defined, and nothing else changes. -/
def OtherStates (old new : Graph) : Prop :=
  ∃ states, new = { old with states } ∧ Revises old.states states

theorem otherStates_self (graph : Graph) : OtherStates graph graph :=
  ⟨graph.states, rfl, .refl graph.states⟩

theorem keeps_declareState {start : Graph} (name : String) :
    (declareState name).Keeps (OtherStates start) := by
  intro graph outcome
  obtain ⟨states, rfl, revised⟩ := outcome
  rw [declareState, Change.leads_ofFunction]
  cases stateId? { start with states } name with
  | some id => exact ⟨states, rfl, revised⟩
  | none => exact ⟨_, rfl, revised.trans (.insert states name)⟩

theorem keeps_defineState {start : Graph} (name : String) (declaration : StateDeclaration) :
    (defineState name declaration).Keeps (OfGraph (OtherStates start)) := by
  rw [defineState]
  refine (keeps_onGraph (keeps_declareState name)).bind fun id => ?_
  refine (Change.keeps_ask _).bind fun condition => ?_
  intro repository other
  refine Change.leads_ask_bind (fun transitions isAnswer => ?_) fun _ _ => other
  obtain ⟨declarations, -, resolved⟩ := exists_of_bind_eq_ok isAnswer
  have routes := ends_of_resolveTransitions resolved
  refine Change.leads_ask_bind (fun services _ => ?_) fun _ _ => other
  refine Change.leads_bind (fun _ => OfGraph (OtherStates start))
    (leads_onGraph (Change.leads_modify ?_)) fun _ _ kept => kept
  obtain ⟨states, same, revised⟩ := other
  rw [same] at routes ⊢
  exact ⟨_, rfl, revised.trans (.adjust (fun _ => ⟨rfl, rfl⟩) fun _ => routes)⟩

/-! ## Refreshing -/

theorem ends_storeGuards (transitions : List Transition) (guards : List Expression) :
    (storeGuards transitions guards).map ends = transitions.map ends := by
  induction transitions generalizing guards with
  | nil => rfl
  | cons transition rest inductionHypothesis =>
      cases guards with
      | nil => rfl
      | cons guard guards =>
          rw [storeGuards, List.map_cons, List.map_cons, inductionHypothesis]
          rfl

theorem revises_storeStates (bindings : List StateBinding) (states : Roster State Unit) :
    Revises states (bindings.foldl storeState states) := by
  induction bindings generalizing states with
  | nil => exact .refl states
  | cons binding rest inductionHypothesis =>
      have stored : Revises states (storeState states binding) :=
        .modifyEnds states _ (fun _ => ⟨rfl, rfl⟩) fun state =>
          ends_storeGuards state.transitions _
      exact stored.trans (inductionHypothesis _)

theorem linkedFrom_storeTags {start : Forest} (bindings : List (TagId × Expression))
    {tags : Forest} (grown : Forest.LinkedFrom start tags) :
    Forest.LinkedFrom start (bindings.foldl storeTag tags) := by
  induction bindings generalizing tags with
  | nil => exact grown
  | cons binding rest inductionHypothesis =>
      have descriptive : Forest.Descriptive (boundTag binding.2) := fun _ => ⟨rfl, rfl, rfl, rfl⟩
      exact inductionHypothesis
        ⟨grown.1.adjust descriptive, grown.2.trans (Forest.grows_adjust descriptive)⟩

/-- A repository is refreshed when everything stored can be bound. -/
theorem bindings_of_refresh {repository refreshed : Repository}
    (isRefreshed : repository.refresh = .ok refreshed) :
    ∃ states tags, repository.bindStates repository.graph.states.members = .ok states ∧
      repository.bindTags repository.graph.tags.all = .ok tags ∧
      refreshed = { repository with
        graph := { repository.graph with
          states := states.foldl storeState repository.graph.states
          tags := tags.foldl storeTag repository.graph.tags } } := by
  obtain ⟨states, areStates, isRefreshed⟩ := exists_of_bind_eq_ok isRefreshed
  obtain ⟨tags, areTags, same⟩ := exists_of_bind_eq_ok isRefreshed
  exact ⟨states, tags, areStates, areTags, (Except.ok.inj same).symm⟩

/-- A refreshed repository differs in the conditions of states and tags only. -/
theorem graph_of_refresh {repository refreshed : Repository}
    (linked : repository.graph.tags.Linked) (isRefreshed : repository.refresh = .ok refreshed) :
    ∃ tags states, Forest.LinkedFrom repository.graph.tags tags ∧
      Revises repository.graph.states states ∧
      refreshed.graph = { repository.graph with tags, states } := by
  obtain ⟨states, tags, -, -, rfl⟩ := bindings_of_refresh isRefreshed
  exact ⟨_, _, linkedFrom_storeTags tags (Forest.linkedFrom_self linked),
    revises_storeStates states _, rfl⟩

end Repository

end LifecycleGraph
