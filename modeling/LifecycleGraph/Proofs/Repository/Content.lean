import LifecycleGraph.Proofs.Graph.TagRemoval
import LifecycleGraph.Proofs.Repository.Declaration
import LifecycleGraph.Repository.Content

/-!
# Configuring keeps what changes keep

A kind of graphs that the changes of single nodes and tags keep is kept when nodes
are configured.  If revised states leave it alone and every graph without nodes is of
the kind as well, it is kept when a whole repository is configured.
-/

set_option autoImplicit false

namespace LifecycleGraph

namespace Graph

/-- A graph without nodes. -/
structure Bare (graph : Graph) : Prop where
  schema : graph.Typed
  linked : graph.tags.Linked
  routed : Routed graph.states
  rows : graph.typeMembers = List.replicate graph.types.size emptyRow
  nodes : graph.nodes = .empty
  stateMembers : graph.stateMembers = .empty
  tagMembers : graph.tagMembers = .empty

namespace Bare

variable {graph : Graph}

theorem reshape {new : Graph} (bare : graph.Bare) (reshapes : graph.Reshapes new) : new.Bare where
  schema := reshapes.typed bare.schema
  linked := by
    rw [reshapes.tags]
    exact bare.linked
  routed := by
    rw [reshapes.states]
    exact bare.routed
  rows := by
    obtain ⟨count, rows, size⟩ := reshapes.rows
    rw [rows, size, bare.rows, List.replicate_append_replicate]
  nodes := reshapes.nodes.trans bare.nodes
  stateMembers := reshapes.stateMembers.trans bare.stateMembers
  tagMembers := reshapes.tagMembers.trans bare.tagMembers

theorem regrown (bare : graph.Bare) {tags : Forest} (grown : Forest.LinkedFrom graph.tags tags)
    {states : Roster State Unit} (revised : Revises graph.states states) :
    Bare { graph with tags, states } where
  schema := bare.schema.of_types rfl
  linked := grown.1
  routed := revised.routed bare.routed
  rows := bare.rows
  nodes := bare.nodes
  stateMembers := bare.stateMembers
  tagMembers := bare.tagMembers

theorem node? (bare : graph.Bare) (id : NodeId) : graph.node? id = none := by
  rw [Graph.node?, bare.nodes, Arena.find?_empty]

theorem entryOf? (bare : graph.Bare) (id : NodeId) : graph.entryOf? id = none := by
  rw [Graph.entryOf?, bare.node?, Option.map_none]

theorem membersOfType? (bare : graph.Bare) {type : TypeId} {members : TypeMembers}
    (found : graph.membersOfType? type = some members) : members = emptyRow := by
  have member := List.mem_of_getElem? found
  rw [bare.rows] at member
  exact List.eq_of_mem_replicate member

theorem listed (bare : graph.Bare) : graph.Listed where
  schema := bare.schema
  linked := bare.linked
  rows := by rw [bare.rows, List.length_replicate]
  stamped := fun {id entry} found => by simp [bare.entryOf? id] at found
  typed := by
    intro type members found id
    rw [bare.membersOfType? found, bare.entryOf?]
    simp [emptyRow, Ascending.empty]
  named := by
    intro type members found name id
    rw [bare.membersOfType? found, bare.entryOf?]
    simp [emptyRow]
  typeOrder := by
    intro type members found
    rw [bare.membersOfType? found]
    exact Ascending.sorted_empty
  inState := by
    intro state id
    rw [bare.stateMembers, bare.entryOf?]
    simp
  stateOrder := by
    rw [bare.stateMembers]
    exact Table.ascends_empty
  tagged := by
    intro tag id
    rw [bare.tagMembers, bare.entryOf?]
    simp
  tagOrder := by
    rw [bare.tagMembers]
    exact Table.ascends_empty
  carried := fun {id entry tag} found => by simp [bare.entryOf? id] at found

end Bare

theorem typed_of_no_types {graph : Graph} (none : graph.types = .empty ()) : graph.Typed := by
  have noType (id : TypeId) : graph.type? id = Option.none := by
    rw [type?, none, Roster.at?_empty]
  refine ⟨?_, ?_, ?_, ?_⟩
  · intro id type found
    rw [noType] at found
    cases found
  · intro id type slot property found
    rw [noType] at found
    cases found
  · intro id base above
    rw [base?, noType] at above
    cases above
  · rw [none]
    exact Roster.keyed_empty NodeType.name ()

theorem bare_empty : empty.Bare where
  schema := typed_of_no_types rfl
  linked := Forest.linked_empty
  routed := routed_empty ()
  rows := rfl
  nodes := rfl
  stateMembers := rfl
  tagMembers := rfl

/-- The types of a graph may be changed at will as long as the schema stays well
formed: the indices do not depend on what a type declares. -/
theorem Listed.reshape {old new : Graph} (listed : old.Listed) (reshapes : old.Reshapes new) :
    new.Listed := by
  obtain ⟨count, rows, size⟩ := reshapes.rows
  have entries (id : NodeId) : new.entryOf? id = old.entryOf? id := by
    rw [entryOf?, entryOf?, Graph.node?, Graph.node?, reshapes.nodes]
  have known {type : TypeId} {members : TypeMembers}
      (found : new.membersOfType? type = some members) :
      old.membersOfType? type = some members ∨
        members = emptyRow ∧ old.types.size ≤ type.index := by
    rw [Graph.membersOfType?, rows, List.getElem?_append] at found
    split at found
    · exact .inl found
    · rename_i beyond
      rw [listed.rows] at beyond
      exact .inr ⟨List.eq_of_mem_replicate (List.mem_of_getElem? found), Nat.not_lt.mp beyond⟩
  have notNew {id : NodeId} {entry : Node.Entry} (found : old.entryOf? id = some entry)
      (beyond : old.types.size ≤ entry.type.index) : False := by
    have := (listed.stamped found).2
    omega
  refine {
    schema := reshapes.typed listed.schema
    linked := ?_
    rows := ?_
    stamped := ?_
    typed := ?_
    named := ?_
    typeOrder := ?_
    inState := ?_
    stateOrder := ?_
    tagged := ?_
    tagOrder := ?_
    carried := ?_ }
  · rw [reshapes.tags]
    exact listed.linked
  · rw [rows, size, List.length_append, List.length_replicate, listed.rows]
  · intro id entry found
    rw [entries] at found
    have stamp := listed.stamped found
    exact ⟨stamp.1, by omega⟩
  · intro type members found id
    rw [entries]
    rcases known found with isOld | ⟨rfl, beyond⟩
    · exact listed.typed isOld id
    · refine iff_of_false List.not_mem_nil ?_
      intro given
      obtain ⟨entry, isEntry, rfl⟩ := given
      exact notNew isEntry beyond
  · intro type members found name id
    rw [entries]
    rcases known found with isOld | ⟨rfl, beyond⟩
    · exact listed.named isOld name id
    · refine iff_of_false (Option.some_ne_none id).symm ?_
      intro given
      obtain ⟨entry, isEntry, rfl, -⟩ := given
      exact notNew isEntry beyond
  · intro type members found
    rcases known found with isOld | ⟨rfl, -⟩
    · exact listed.typeOrder isOld
    · exact Ascending.sorted_empty
  · intro state id
    rw [entries, reshapes.stateMembers]
    exact listed.inState state id
  · rw [reshapes.stateMembers]
    exact listed.stateOrder
  · intro tag id
    rw [entries, reshapes.tagMembers]
    exact listed.tagged tag id
  · rw [reshapes.tagMembers]
    exact listed.tagOrder
  · intro id entry tag found member
    rw [entries] at found
    rw [reshapes.tags]
    exact listed.carried found member

/-- A node with another description and other configuration for services. -/
def describeNode (id : NodeId) (description : String) (services : Table String Json)
    (graph : Graph) : Graph :=
  graph.adjustNode id fun node => { node with description, services }

/-- A kind of graphs that growing forests leave alone. -/
structure Planted (kept : Graph → Prop) : Prop where
  linked : ∀ graph, kept graph → graph.tags.Linked
  grown : ∀ {graph : Graph} {tags : Forest}, kept graph → Forest.LinkedFrom graph.tags tags →
    kept { graph with tags }

/-- A kind of graphs that growing forests and revised states leave alone. -/
structure Extending (kept : Graph → Prop) : Prop extends Planted kept where
  revised : ∀ {graph : Graph} {states : Roster State Unit}, kept graph →
    Revises graph.states states → kept { graph with states }

/-- A kind of graphs that the growth of a graph keeps, whatever is made of its nodes. -/
structure Growing (kept : Graph → Prop) : Prop extends Extending kept where
  bare : ∀ graph, graph.Bare → kept graph
  addNode : ∀ type name, (addNode type name).Keeps kept

/-- A kind of graphs that the changes of nodes and tags keep. -/
structure Tended (kept : Graph → Prop) : Prop extends Planted kept where
  described : ∀ (id : NodeId) (description : String) {services : Table String Json},
    services.Sorted → ∀ graph, kept graph → kept (describeNode id description services graph)
  addNode : ∀ type name, (addNode type name).Keeps kept
  addTag : ∀ id tag, (addTag id tag).Keeps kept
  removeTag : ∀ id tag, (removeTag id tag).Keeps kept
  setState : ∀ id state, (setState id state).Keeps kept
  setProperty : ∀ id property value, (setProperty id property value).Keeps kept
  removeNode : ∀ id, (removeNode id).Keeps kept
  removeTagTree : ∀ tag, (removeTagTree tag).Keeps kept

/-- A kind of graphs that the changes of nodes, tags and states keep. -/
structure Sustained (kept : Graph → Prop) : Prop extends Tended kept, Extending kept

/-- A kind of graphs that holds also of every graph without nodes. -/
structure Maintained (kept : Graph → Prop) : Prop extends Sustained kept where
  bare : ∀ graph, graph.Bare → kept graph

theorem extending_bare : Extending Bare where
  linked _ bare := bare.linked
  grown {graph} _ bare grown := bare.regrown grown (.refl graph.states)
  revised bare revised := bare.regrown (Forest.linkedFrom_self bare.linked) revised

theorem Maintained.growing {kept : Graph → Prop} (maintained : Maintained kept) : Growing kept :=
  { maintained with }

theorem maintained_listed : Maintained Listed where
  bare _ bare := bare.listed
  linked _ listed := listed.linked
  grown {graph} _ listed grown := listed.regrown grown graph.states
  revised listed _ := listed.regrown (Forest.linkedFrom_self listed.linked) _
  described id _ _ _ _ listed := listed.adjustContent id fun _ => rfl
  addNode := keeps_addNode
  addTag := keeps_addTag
  removeTag := keeps_removeTag
  setState := keeps_setState
  setProperty := keeps_setProperty
  removeNode := keeps_removeNode
  removeTagTree := keeps_removeTagTree

end Graph

namespace Repository

open Graph

section Maintained

variable {kept : Graph → Prop}

/-- A change of the forest of a graph alone. -/
def onForest {α : Type} (change : Change Forest α) : Change Graph α :=
  change.within Graph.tags fun graph tags => { graph with tags }

theorem keeps_onForest (planted : Planted kept) {α : Type} {change : Change Forest α}
    (keeps : ∀ start : Forest, change.Keeps (Forest.LinkedFrom start)) :
    (onForest change).Keeps kept := by
  intro graph isKept
  refine Change.leads_within ?_
  have grows := keeps graph.tags graph.tags
    (Forest.linkedFrom_self (planted.linked graph isKept))
  exact grows.imp (fun _ _ grown => planted.grown isKept grown) fun _ => planted.grown isKept

theorem keeps_tagOrCreate (planted : Planted kept) (name : String) (parent : Option TagId) :
    (tagOrCreate name parent).Keeps kept :=
  keeps_onForest planted fun _ => Forest.keeps_tagOrCreate name parent

theorem keeps_clearNode (tended : Tended kept) (id : NodeId) :
    (clearNode id).Keeps kept := by
  rw [clearNode]
  refine (Change.keeps_ask _).bind fun node => ?_
  refine Change.Keeps.bind
    (Change.keeps_forEach fun property => tended.setProperty id property .null) fun _ => ?_
  refine (Change.keeps_ask _).bind fun node => Change.keeps_forEach fun tag => ?_
  exact (tended.removeTag id tag).answerless

theorem keeps_fill (tended : Tended kept) (id : NodeId) (content : NodeContent)
    (preparation : Preparation) : (fill id content preparation).Keeps kept := by
  rw [fill]
  refine (keeps_clearNode tended id).bind fun _ => ?_
  refine Change.Keeps.bind (Change.keeps_forEach fun name => ?_) fun _ => ?_
  · exact (keeps_tagOrCreate tended.toPlanted name none).bind fun tag => tended.addTag id tag
  · refine Change.Keeps.bind (Change.keeps_forEach fun (property, value) => ?_) fun _ => ?_
    · exact tended.setProperty id property value
    · refine (tended.setState id preparation.state).bind fun _ => ?_
      exact Change.keeps_modify (tended.described id content.description (Table.sorted_ofList _))

theorem keeps_configureNode (tended : Tended kept) (id : NodeId) (content : NodeContent) :
    (configureNode id content).Keeps (OfGraph kept) :=
  (Change.keeps_ask _).bind fun preparation =>
    keeps_onGraph (keeps_fill tended id content preparation)

theorem keeps_addNodes {kind : Repository → Prop}
    (adds : ∀ type name, (onGraph (addNode type name)).Keeps kind) (typeName : String)
    (type : TypeId) (members : Json.Members) : (addNodes typeName type members).Keeps kind := by
  induction members with
  | nil => exact Change.keeps_pure _
  | cons member rest inductionHypothesis =>
      refine (Change.keeps_ask _).bind fun content => ?_
      refine (adds type member.1).bind fun id => ?_
      exact inductionHypothesis.bind fun others => Change.keeps_pure _

theorem keeps_addAllNodes {kind : Repository → Prop}
    (adds : ∀ type name, (onGraph (addNode type name)).Keeps kind) (members : Json.Members) :
    (addAllNodes members).Keeps kind := by
  induction members with
  | nil => exact Change.keeps_pure _
  | cons member rest inductionHypothesis =>
      obtain ⟨typeName, data⟩ := member
      rw [addAllNodes]
      refine (Change.keeps_ask _).bind fun type => ?_
      have others (added : List (NodeId × NodeContent)) :
          (addAllNodes rest >>= fun others => pure (added ++ others)).Keeps kind :=
        inductionHypothesis.bind fun others => Change.keeps_pure _
      cases data with
      | null => exact (Change.keeps_pure _).bind others
      | object entries => exact (keeps_addNodes adds typeName type entries).bind others
      | _ => exact (Change.keeps_stop _).bind others

/-- What refreshing leaves is of the same kind. -/
theorem kept_refresh (extending : Extending kept) {repository refreshed : Repository}
    (isKept : kept repository.graph) (isRefreshed : repository.refresh = .ok refreshed) :
    kept refreshed.graph := by
  obtain ⟨tags, states, grown, revised, same⟩ :=
    graph_of_refresh (extending.linked _ isKept) isRefreshed
  rw [same]
  exact extending.revised (extending.grown isKept grown) revised

/-- What revised states leave alone is kept when a state is declared. -/
theorem keeps_declaredState (extending : Extending kept) (name : String) :
    (declareState name).Keeps kept := by
  have revised {old new : Graph} (isKept : kept old) (other : OtherStates old new) : kept new := by
    obtain ⟨states, rfl, revised⟩ := other
    exact extending.revised isKept revised
  intro graph isKept
  exact (keeps_declareState name graph (otherStates_self graph)).imp
    (fun _ _ => revised isKept) fun _ => revised isKept

theorem keeps_definedState (extending : Extending kept) (name : String)
    (declaration : StateDeclaration) : (defineState name declaration).Keeps (OfGraph kept) := by
  have revised {old new : Repository} (isKept : kept old.graph)
      (other : OfGraph (OtherStates old.graph) new) : OfGraph kept new := by
    obtain ⟨states, same, revised⟩ := other
    rw [OfGraph, same]
    exact extending.revised isKept revised
  intro repository isKept
  exact (keeps_defineState name declaration repository (otherStates_self repository.graph)).imp
    (fun _ _ => revised isKept) fun _ => revised isKept

/-! ## Configuring a repository -/

theorem keeps_configureTypes {kind : Repository → Prop}
    (declares : ∀ name, (onGraph (declareType name)).Keeps kind)
    (defines : ∀ name declaration, (defineType name declaration).Keeps kind)
    (types : Json.Members) : (configureTypes types).Keeps kind := by
  rw [configureTypes]
  refine Change.Keeps.bind (Change.keeps_forEach fun (name, data) => ?_) fun _ => ?_
  · exact (declares name).answerless
  · refine Change.Keeps.bind (Change.keeps_forEach fun (name, data) => ?_) fun _ =>
      Change.keeps_ask _
    exact (Change.keeps_ask _).bind fun declaration => (defines name declaration).answerless

/-- What is kept while types are reshaped is kept where they are configured. -/
theorem keeps_reshapedTypes
    (reshaped : ∀ {old new : Graph}, kept old → old.Reshapes new → kept new)
    (types : Json.Members) : (configureTypes types).Keeps (OfGraph kept) := by
  refine keeps_configureTypes (fun name => ?_) (fun name declaration => ?_) types
  · refine keeps_onGraph fun graph isKept => ?_
    refine (leads_declareType name graph).imp ?_ fun _ => False.elim
    intro id changed outcome
    obtain ⟨-, rfl⟩ | ⟨new, -, rfl⟩ := outcome
    · exact isKept
    · exact reshaped isKept (reshapes_withType new)
  · intro repository isKept
    refine (leads_defineType name declaration repository).imp ?_ ?_
    · exact fun _ changed defined => reshaped isKept defined.1
    · exact fun changed defined => reshaped isKept defined.1

theorem keeps_configureStates {kind : Repository → Prop} {states : Json.Members}
    (declares : ∀ name, (onGraph (declareState name)).Keeps kind)
    (defines : ∀ entry ∈ states, ∀ declaration, StateDeclaration.ofJson entry.2 = .ok declaration →
      (defineState entry.1 declaration).Keeps kind) :
    (configureStates states).Keeps kind := by
  rw [configureStates]
  refine Change.Keeps.bind (Change.keeps_forEach fun (name, data) => ?_) fun _ => ?_
  · exact (declares name).answerless
  · intro repository isKept
    refine Change.leads_forEach kind isKept fun entry isEntry repository isKept => ?_
    refine Change.leads_ask_bind (fun declaration isRead => ?_) fun _ _ => isKept
    exact (defines entry isEntry declaration isRead).answerless repository isKept

/-- Up to the first node a configuration leaves repositories of one kind, and from then on of
the other one, if its steps do. -/
theorem leads_configure_of {blank kept : Repository → Prop} {repository : Repository}
    (content : RepositoryContent) (cleared : blank repository.clear)
    (tags : (onGraph (onForest (Forest.configure none content.tags))).Keeps blank)
    (types : (configureTypes content.types).Keeps blank)
    (states : (configureStates content.states).Keeps blank)
    (isKept : ∀ repository, blank repository → kept repository)
    (nodes : (addAllNodes content.nodes).Keeps kept)
    (configures : ∀ id content, (configureNode id content).Keeps kept)
    (refreshed : ∀ {repository refreshed}, kept repository → repository.refresh = .ok refreshed →
      kept refreshed) :
    (configure content).Leads repository (fun _ => kept) kept := by
  rw [configure]
  refine Change.leads_bind (fun _ => blank) (Change.leads_modify cleared) ?_
  intro _ state isBlank
  refine Change.leads_bind _ ((tags state isBlank).imp (fun _ _ isBlank => isBlank) isKept) ?_
  intro _ state isBlank
  refine Change.leads_bind _ ((types state isBlank).imp (fun _ _ isBlank => isBlank) isKept) ?_
  intro _ state isBlank
  refine Change.leads_bind _ ((states state isBlank).imp (fun _ _ isBlank => isBlank) isKept) ?_
  intro _ state isBlank
  refine Change.leads_bind _ (nodes state (isKept state isBlank)) ?_
  intro nodes state stateKept
  refine Change.leads_bind _ (Change.keeps_forEach
    (fun (id, content) => configures id content) state stateKept) ?_
  intro _ state stateKept
  exact Change.leads_ask_bind
    (fun _ isRefreshed => Change.leads_set (refreshed stateKept isRefreshed)) fun _ _ => stateKept

theorem bare_clear (repository : Repository) : repository.clear.graph.Bare where
  schema := typed_of_no_types rfl
  linked := Forest.linked_empty
  routed := routed_empty _
  rows := rfl
  nodes := rfl
  stateMembers := rfl
  tagMembers := rfl

/-- Whatever was there before, a configured repository is of the kind. -/
theorem leads_configure (growing : Growing kept)
    (configures : ∀ id content, (configureNode id content).Keeps (OfGraph kept))
    (content : RepositoryContent) (repository : Repository) :
    (configure content).Leads repository (fun _ => OfGraph kept) (OfGraph kept) :=
  leads_configure_of content (bare_clear repository)
    (keeps_onGraph (keeps_onForest extending_bare.toPlanted fun _ => Forest.keeps_configure none _))
    (keeps_reshapedTypes Bare.reshape content.types)
    (keeps_configureStates (fun name => keeps_onGraph (keeps_declaredState extending_bare name))
      fun entry _ declaration _ => keeps_definedState extending_bare entry.1 declaration)
    (fun repository => growing.bare repository.graph)
    (keeps_addAllNodes (fun type name => keeps_onGraph (growing.addNode type name)) content.nodes)
    configures (kept_refresh growing.toExtending)

end Maintained

end Repository

end LifecycleGraph
