import LifecycleGraph.Proofs.Engine.Round
import LifecycleGraph.Proofs.Repository.Run

/-!
# What is committed

From the proposals for nodes that every service accepts, a commit applies those
that find their node in the state that it is to leave, each after those before
it.  A reply that is no answer accepts nothing, so that nothing is applied, and
then nothing is changed and no service is told.  Otherwise every service is told
once, after all replies.
-/

set_option autoImplicit false

namespace LifecycleGraph

/-! ## Which nodes are accepted -/

def Reply.accepts (id : NodeId) : Reply (List NodeId) → Bool
  | .answered answer => answer.contains id
  | _ => false

theorem Reply.accepting_eq (accepted : Ascending NodeId) (reply : Reply (List NodeId)) :
    accepting accepted reply = ⟨accepted.members.filter fun id => reply.accepts id⟩ := by
  cases reply with
  | answered answer => rfl
  | failed reason => simp [accepting, accepts, Ascending.empty]
  | aborted => simp [accepting, accepts, Ascending.empty]
  | late => simp [accepting, accepts, Ascending.empty]

namespace Commit

def unanimous (replies : List (Reply (List NodeId))) (id : NodeId) : Bool :=
  replies.all (Reply.accepts id)

theorem unanimous_perm {replies others : List (Reply (List NodeId))}
    (reordered : others.Perm replies) : unanimous others = unanimous replies := by
  funext id
  exact reordered.all_eq

theorem unanimous_eq_false {replies : List (Reply (List NodeId))} {reply : Reply (List NodeId)}
    (isReply : reply ∈ replies) (noAnswer : ∀ answer, reply ≠ .answered answer) (id : NodeId) :
    unanimous replies id = false := by
  have refused : reply.accepts id = false := by
    cases reply with
    | answered answer => exact absurd rfl (noAnswer answer)
    | failed reason => rfl
    | aborted => rfl
    | late => rfl
  exact List.all_eq_false.mpr ⟨reply, isReply, by simp [refused]⟩

theorem accepted_eq (proposals : List Proposal) (replies : List (Reply (List NodeId))) :
    accepted proposals replies =
      ⟨(Ascending.ofList (proposals.map Proposal.node)).members.filter (unanimous replies)⟩ := by
  -- The set shrinks along the replies; one that is no answer leaves nothing for the others.
  have fold (set : Ascending NodeId) :
      replies.foldl Reply.accepting set = ⟨set.members.filter (unanimous replies)⟩ := by
    induction replies generalizing set with
    | nil =>
        have everyone : unanimous [] = fun _ => true := rfl
        rw [everyone, List.filter_true, List.foldl_nil]
    | cons reply rest inductionHypothesis =>
        rw [List.foldl_cons, inductionHypothesis, Reply.accepting_eq, List.filter_filter]
        congr 2
        funext id
        exact Bool.and_comm ..
  exact fold _

theorem contains_accepted {proposals : List Proposal} {proposal : Proposal}
    (isProposal : proposal ∈ proposals) (replies : List (Reply (List NodeId))) :
    (accepted proposals replies).contains proposal.node = unanimous replies proposal.node := by
  have member := List.mem_map_of_mem (f := Proposal.node) isProposal
  rw [Bool.eq_iff_iff, Ascending.contains_iff, accepted_eq, List.mem_filter,
    Ascending.mem_ofList]
  exact and_iff_right member

theorem filter_accepted (proposals : List Proposal) (replies : List (Reply (List NodeId))) :
    (proposals.filter fun proposal => (accepted proposals replies).contains proposal.node) =
      proposals.filter fun proposal => unanimous replies proposal.node :=
  List.filter_congr fun _ isProposal => contains_accepted isProposal replies

end Commit

/-! ## Which proposals are applied -/

/-- The states that nodes are in, for the nodes that there are. -/
abbrev Standing := NodeId → Option (Option StateId)

namespace Standing

def move (standing : Standing) (proposal : Proposal) : Standing :=
  fun id => if id = proposal.node then some (some proposal.target) else standing id

def moveAll (standing : Standing) (applied : List Proposal) : Standing :=
  applied.foldl move standing

/-- The proposals that find their node in the state to leave, each after those
before it. -/
def inTurn : Standing → List Proposal → List Proposal
  | _, [] => []
  | standing, proposal :: rest =>
      if standing proposal.node = some proposal.source then
        proposal :: inTurn (standing.move proposal) rest
      else inTurn standing rest

theorem inTurn_sublist (standing : Standing) (proposals : List Proposal) :
    (standing.inTurn proposals).Sublist proposals := by
  induction proposals generalizing standing with
  | nil => exact .slnil
  | cons proposal rest inductionHypothesis =>
      rw [inTurn]
      split
      · exact (inductionHypothesis _).cons_cons proposal
      · exact (inductionHypothesis _).cons proposal

end Standing

/-- A node but for its state. -/
def Node.stateless (node : Node) : Node := { node with state := none }

namespace Graph

def standing (graph : Graph) : Standing := fun id => (graph.node? id).map Node.state

/-- A graph after some proposals: its nodes are in other states, and nothing else is
different. -/
structure Moved (old : Graph) (applied : List Proposal) (new : Graph) : Prop where
  standing : new.standing = old.standing.moveAll applied
  contents : ∀ id, (new.node? id).map Node.stateless = (old.node? id).map Node.stateless
  others : new = { old with nodes := new.nodes, stateMembers := new.stateMembers }
  listed : old.Listed → new.Listed
  unmoved : applied = [] → new = old

variable {graph : Graph}

theorem Moved.refl (graph : Graph) : graph.Moved [] graph :=
  ⟨rfl, fun _ => rfl, rfl, id, fun _ => rfl⟩

theorem Moved.state?_eq {applied : List Proposal} {new : Graph} (moved : graph.Moved applied new)
    (id : StateId) : new.state? id = graph.state? id := by
  rw [moved.others]
  rfl

theorem Moved.states_eq {applied : List Proposal} {new : Graph}
    (moved : graph.Moved applied new) : new.states = graph.states := by
  rw [moved.others]

theorem Moved.trans {first second third : Graph} {moves further : List Proposal}
    (one : first.Moved moves second) (two : second.Moved further third) :
    first.Moved (moves ++ further) third where
  standing := by
    rw [two.standing, one.standing, Standing.moveAll, Standing.moveAll, Standing.moveAll,
      List.foldl_append]
  contents id := (two.contents id).trans (one.contents id)
  others := by
    rw [two.others, one.others]
  listed := two.listed ∘ one.listed
  unmoved nothing := by
    obtain ⟨none, noneFurther⟩ := List.append_eq_nil_iff.mp nothing
    rw [two.unmoved noneFurther, one.unmoved none]

theorem moved_adjustNode (proposal : Proposal) {node : Node}
    (found : graph.node? proposal.node = some node) (members : Table StateId (Ascending NodeId))
    (listed : graph.Listed →
      { graph.adjustNode proposal.node fun node => { node with state := some proposal.target } with
        stateMembers := members }.Listed) :
    graph.Moved [proposal]
      { graph.adjustNode proposal.node fun node => { node with state := some proposal.target } with
        stateMembers := members } := by
  have nodes (id : NodeId) :
      Graph.node?
          { graph.adjustNode proposal.node
              fun node => { node with state := some proposal.target } with
            stateMembers := members } id =
        if id = proposal.node then
          (graph.node? id).map fun node => { node with state := some proposal.target }
        else graph.node? id :=
    node?_adjustNode graph proposal.node id _
  refine ⟨?_, ?_, rfl, listed, by simp⟩
  · funext id
    simp only [Graph.standing, nodes, Standing.moveAll, Standing.move, List.foldl_cons,
      List.foldl_nil]
    split
    · rename_i same
      rw [same, found, Option.map_some, Option.map_some]
    · rfl
  · intro id
    rw [nodes]
    split
    · cases graph.node? id <;> rfl
    · rfl

/-- A node that is there is moved to a state that is there. -/
theorem setState_apply {proposal : Proposal}
    (target : (graph.state? proposal.target).isSome = true)
    (inSource : graph.standing proposal.node = some proposal.source) :
    ∃ changed, (setState proposal.node (some proposal.target)).apply graph = (.ok (), changed) ∧
      graph.Moved [proposal] changed := by
  obtain ⟨node, found, -⟩ := Option.map_eq_some_iff.mp inSource
  have present : (some proposal.target).filter (fun id => (graph.state? id).isNone) = none := by
    simp [Option.filter, Option.isSome_iff_ne_none.mp target]
  have listed (isListed : graph.Listed) :
      ((setState proposal.node (some proposal.target)).apply graph).2.Listed :=
    (keeps_setState proposal.node (some proposal.target) graph isListed).state_apply
  by_cases already : node.state = some proposal.target
  · refine ⟨graph, ?_, ?_⟩
    · simp only [setState, Change.apply_ofFunction, present, found, already, if_true]
    · refine { Moved.refl graph with standing := ?_, unmoved := by simp }
      funext id
      simp only [Standing.moveAll, Standing.move, List.foldl_cons, List.foldl_nil, Graph.standing]
      split
      · rename_i same
        rw [same, found, Option.map_some, already]
      · rfl
  · simp only [setState, Change.apply_ofFunction, present, found, already, if_false] at listed ⊢
    exact ⟨_, rfl, moved_adjustNode proposal found _ listed⟩

/-- A node in the state to leave is moved, unless the target is not there. -/
theorem leads_move {proposal : Proposal}
    (inSource : graph.standing proposal.node = some proposal.source) :
    (setState proposal.node (some proposal.target)).Leads graph
      (fun _ changed => graph.Moved [proposal] changed)
      fun _ => graph.state? proposal.target = none := by
  by_cases target : (graph.state? proposal.target).isSome = true
  · obtain ⟨changed, applied, moved⟩ := setState_apply target inSource
    rw [Change.Leads, applied]
    exact moved
  · have absent : graph.state? proposal.target = none := by simpa using target
    have missing : (some proposal.target).filter (fun id => (graph.state? id).isNone) =
        some proposal.target := by
      simp [Option.filter, absent]
    rw [setState, Change.leads_ofFunction, missing]
    exact absent

end Graph

namespace Commit

/-- Proposals are applied until the target of one is not there. -/
theorem leads_applyAll (graph : Graph) (proposals : List Proposal) :
    (applyAll proposals).Leads graph
      (fun applied moved => applied = graph.standing.inTurn proposals ∧ graph.Moved applied moved)
      fun _ => ∃ proposal ∈ proposals, graph.state? proposal.target = none := by
  -- Each applied proposal changes the standing by which those after it are judged.
  induction proposals generalizing graph with
  | nil => exact Change.leads_pure ⟨rfl, .refl graph⟩
  | cons proposal rest inductionHypothesis =>
      have missing {unmoved : Graph} (state? : ∀ id, unmoved.state? id = graph.state? id)
          (stopped : ∃ other ∈ rest, unmoved.state? other.target = none) :
          ∃ other ∈ proposal :: rest, graph.state? other.target = none := by
        obtain ⟨other, inRest, absent⟩ := stopped
        exact ⟨other, List.mem_cons_of_mem _ inRest, (state? other.target).symm.trans absent⟩
      rw [applyAll]
      refine Change.leads_get_bind ?_
      rw [Standing.inTurn]
      by_cases inSource : graph.standing proposal.node = some proposal.source
      · rw [if_pos inSource]
        simp only [Graph.standing] at inSource
        simp only [inSource, if_true]
        refine Change.leads_bind _ ((Graph.leads_move inSource).imp (fun _ _ moved => moved)
          fun _ absent => ⟨proposal, List.mem_cons_self .., absent⟩) ?_
        intro _ between first
        refine Change.leads_bind _ ((inductionHypothesis between).imp (fun _ _ moved => moved)
          fun _ => missing first.state?_eq) ?_
        intro others moved outcome
        obtain ⟨rfl, further⟩ := outcome
        refine Change.leads_pure ⟨?_, first.trans further⟩
        rw [first.standing]
        rfl
      · rw [if_neg inSource]
        simp only [Graph.standing] at inSource
        simp only [inSource, if_false]
        exact (inductionHypothesis graph).imp (fun _ _ moved => moved)
          fun _ => missing fun _ => rfl

theorem applyAll_apply (graph : Graph) (proposals : List Proposal)
    (targets : ∀ proposal ∈ proposals, (graph.state? proposal.target).isSome = true) :
    ∃ moved, (applyAll proposals).apply graph =
        (.ok (graph.standing.inTurn proposals), moved) ∧
      graph.Moved (graph.standing.inTurn proposals) moved := by
  have leads := leads_applyAll graph proposals
  rw [Change.Leads] at leads
  split at leads
  · rename_i applied moved run
    obtain ⟨rfl, moves⟩ := leads
    exact ⟨moved, run, moves⟩
  · obtain ⟨proposal, isProposal, absent⟩ := leads
    have target := targets proposal isProposal
    rw [absent] at target
    cases target

/-! ## The two phases -/

variable {σ : Type}

/-- The proposals, labelled for each service. -/
def batches (services : Services σ) (repository : Repository) (proposals : List Proposal) :
    List (List Proposal) :=
  services.map fun service => repository.labelFor service.1 proposals

/-- The services that a commit turns to; where nothing is proposed, these are none. -/
def addressed (services : Services σ) (proposals : List Proposal) : Services σ :=
  if proposals.isEmpty then [] else services

/-- The replies of the services, and the world in which they left the proposals. -/
def firstPhase (services : Services σ) (timeout : Nat) (proposals : List Proposal)
    (world : World σ) : List (Reply (List NodeId)) × World σ :=
  askAll (addressed services proposals) timeout (batches services world.repository proposals) world

theorem length_addressed_le (services : Services σ) (repository : Repository)
    (proposals : List Proposal) :
    (addressed services proposals).length ≤ (batches services repository proposals).length := by
  rw [batches, List.length_map, addressed]
  split
  · exact Nat.zero_le _
  · exact Nat.le_refl _

theorem length_askAll (services : Services σ) (timeout : Nat) {batches : List (List Proposal)}
    (enough : services.length ≤ batches.length) (world : World σ) :
    (askAll services timeout batches world).1.length = services.length := by
  rw [askAll, Call.length_round, List.length_map, List.length_zip]
  exact Nat.min_eq_left enough

/-- What is done when the services have replied. -/
def conclude (services : Services σ) (timeout : Nat) (batches : List (List Proposal))
    (proposals : List Proposal) (replies : List (Reply (List NodeId))) :
    Change (World σ) (List Proposal) := do
  let nodes := accepted proposals replies
  if nodes.isEmpty then pure []
  else
    let applied ← World.onGraph <| applyAll <|
      proposals.filter fun proposal => nodes.contains proposal.node
    if applied.isEmpty then pure []
    else
      modify fun world => (tellAll services timeout batches applied world).2
      pure applied

theorem commit_apply (services : Services σ) (timeout : Nat) (proposals : List Proposal)
    (world : World σ) :
    (commit services timeout proposals).apply world =
      (conclude services timeout (batches services world.repository proposals) proposals
        (firstPhase services timeout proposals world).1).apply
          (firstPhase services timeout proposals world).2 := by
  cases proposals with
  | nil => rfl
  | cons proposal rest => rfl

/-- The replies matter, and not the order in which they arrive. -/
theorem conclude_perm (services : Services σ) (timeout : Nat) (batches : List (List Proposal))
    (proposals : List Proposal) {replies others : List (Reply (List NodeId))}
    (reordered : others.Perm replies) :
    conclude services timeout batches proposals others =
      conclude services timeout batches proposals replies := by
  simp only [conclude, accepted_eq, unanimous_perm reordered]

/-- The proposals that are to be applied: those for nodes that every reply accepts. -/
def candidates (proposals : List Proposal) (replies : List (Reply (List NodeId))) :
    List Proposal :=
  proposals.filter fun proposal => unanimous replies proposal.node

def withGraph (world : World σ) (graph : Graph) : World σ :=
  { world with repository := { world.repository with graph } }

/-- The world when some proposals were applied and moved the graph: as it was, if these
are none, and else as the services leave it that are told. -/
def settled (services : Services σ) (timeout : Nat) (batches : List (List Proposal))
    (applied : List Proposal) (moved : Graph) (between : World σ) : World σ :=
  if applied.isEmpty then between
  else (tellAll services timeout batches applied (withGraph between moved)).2

theorem onGraph_apply {α : Type} {change : Change Graph α} {world : World σ}
    {answer : Except Fault α} {moved : Graph}
    (run : change.apply world.repository.graph = (answer, moved)) :
    (World.onGraph change).apply world = (answer, withGraph world moved) := by
  rw [World.onGraph, World.onRepository, Repository.onGraph, Change.apply_within,
    Change.apply_within, run]
  rfl

theorem candidates_of_nobody {proposals : List Proposal} {replies : List (Reply (List NodeId))}
    (nobody : (accepted proposals replies).isEmpty = true) : candidates proposals replies = [] := by
  rw [candidates, ← filter_accepted, List.filter_eq_nil_iff]
  intro proposal isProposal
  rw [Ascending.contains, List.isEmpty_iff.mp nobody]
  simp

theorem conclude_apply (services : Services σ) (timeout : Nat) (batches : List (List Proposal))
    {proposals : List Proposal} (replies : List (Reply (List NodeId))) (between : World σ)
    {applied : List Proposal} {moved : Graph}
    (run : (applyAll (candidates proposals replies)).apply between.repository.graph =
      (.ok applied, moved))
    (unmoved : applied = [] → moved = between.repository.graph) :
    (conclude services timeout batches proposals replies).apply between =
      (.ok applied, settled services timeout batches applied moved between) := by
  have unchanged (nothing : applied = []) : withGraph between moved = between := by
    rw [unmoved nothing]
    rfl
  by_cases nobody : (accepted proposals replies).isEmpty = true
  · rw [candidates_of_nobody nobody] at run
    cases run
    simp [conclude, nobody, settled]
  · simp only [conclude, filter_accepted, nobody, Bool.false_eq_true, if_false, Change.apply_bind]
    rw [← candidates, onGraph_apply run]
    cases applied with
    | nil => simp [settled, unchanged]
    | cons first rest => rfl

/-- Where applying is stopped, no service is told. -/
theorem conclude_stopped (services : Services σ) (timeout : Nat) (batches : List (List Proposal))
    {proposals : List Proposal} (replies : List (Reply (List NodeId))) (between : World σ)
    {fault : Fault} {moved : Graph}
    (run : (applyAll (candidates proposals replies)).apply between.repository.graph =
      (.error fault, moved)) :
    (conclude services timeout batches proposals replies).apply between =
      (.error fault, withGraph between moved) := by
  by_cases nobody : (accepted proposals replies).isEmpty = true
  · rw [candidates_of_nobody nobody] at run
    cases run
  · simp only [conclude, filter_accepted, nobody, Bool.false_eq_true, if_false, Change.apply_bind]
    rw [← candidates, onGraph_apply run]

/-! ## What the services respect -/

section Respects

variable {step : World σ → World σ → Prop} (refl : ∀ world, step world world)
  (trans : ∀ first second third, step first second → step second third → step first third)
  {services : Services σ}

include refl trans

theorem respects_round_zip {α : Type} (timeout : Nat) (batches : List (List Proposal))
    (call : Service (World σ) → List Proposal → Call (World σ) α)
    (respects : ∀ service ∈ services, ∀ batch, (call service.2 batch).Respects step fun _ => True)
    (world : World σ) :
    step world (Call.round timeout
      ((services.zip batches).map fun (service, batch) => call service.2 batch) world).2 := by
  refine Call.step_round refl trans timeout (fun called member => ?_) world
  obtain ⟨⟨service, batch⟩, isPair, rfl⟩ := List.mem_map.mp member
  exact respects service (List.of_mem_zip isPair).1 batch

theorem respects_asking
    (prepares : ∀ service ∈ services, ∀ batch,
      (service.2.prepare batch).Respects step fun _ => True)
    (timeout : Nat) (proposals : List Proposal) (world : World σ) :
    step world (firstPhase services timeout proposals world).2 := by
  refine respects_round_zip refl trans timeout _ (fun service batch => service.prepare batch) ?_
    world
  intro service isAddressed
  rw [addressed] at isAddressed
  split at isAddressed
  · cases isAddressed
  · exact prepares service isAddressed

variable (respects : ∀ service ∈ services, service.2.Respects step)

include respects

theorem respects_firstPhase (timeout : Nat) (proposals : List Proposal) (world : World σ) :
    step world (firstPhase services timeout proposals world).2 :=
  respects_asking refl trans (fun service isService => (respects service isService).prepare) timeout
    proposals world

theorem respects_settled (timeout : Nat) (batches : List (List Proposal))
    {applied : List Proposal} {moved : Graph} {between : World σ}
    (moves : between.repository.graph.Moved applied moved) :
    step (withGraph between moved)
      (settled services timeout batches applied moved between) := by
  rw [settled]
  split
  · rename_i nothing
    rw [moves.unmoved (List.isEmpty_iff.mp nothing)]
    exact refl between
  · exact respects_round_zip refl trans timeout batches
      (fun service batch => service.commit (appliedPart applied batch))
      (fun service isService _ => (respects service isService).commit _) (withGraph between moved)

/-- What a commit applied that was answered, between such steps of the services. -/
theorem steps_of_commit_ok {timeout : Nat} {proposals applied : List Proposal}
    {world final : World σ}
    (run : (commit services timeout proposals).apply world = (.ok applied, final)) :
    ∃ replies between moved, step world between ∧
      applied = between.repository.graph.standing.inTurn (candidates proposals replies) ∧
      between.repository.graph.Moved applied moved ∧ step (withGraph between moved) final := by
  have asked := respects_firstPhase refl trans respects timeout proposals world
  rw [commit_apply] at run
  generalize firstPhase services timeout proposals world = first at run asked
  obtain ⟨replies, between⟩ := first
  have leads := leads_applyAll between.repository.graph (candidates proposals replies)
  rcases applying : (applyAll (candidates proposals replies)).apply between.repository.graph with
    ⟨fault | chosen, moved⟩
  · rw [conclude_stopped services timeout _ replies between applying] at run
    cases run
  · rw [Change.Leads, applying] at leads
    obtain ⟨inTurn, moves⟩ := leads
    rw [conclude_apply services timeout _ replies between applying moves.unmoved] at run
    cases run
    exact ⟨replies, between, moved, asked, inTurn, moves,
      respects_settled refl trans respects timeout _ moves⟩

/-- A commit goes in such steps if changes of the graph are such steps too. -/
theorem step_commit (regraph : ∀ world graph, step world (withGraph world graph)) (timeout : Nat)
    (proposals : List Proposal) (world : World σ) :
    step world ((commit services timeout proposals).apply world).2 := by
  have asked := respects_firstPhase refl trans respects timeout proposals world
  rw [commit_apply]
  generalize firstPhase services timeout proposals world = first at asked ⊢
  obtain ⟨replies, between⟩ := first
  have leads := leads_applyAll between.repository.graph (candidates proposals replies)
  rcases applying : (applyAll (candidates proposals replies)).apply between.repository.graph with
    ⟨fault | applied, moved⟩
  · rw [conclude_stopped services timeout _ replies between applying]
    exact trans _ _ _ asked (regraph between moved)
  · rw [Change.Leads, applying] at leads
    rw [conclude_apply services timeout _ replies between applying leads.2.unmoved]
    exact trans _ _ _ asked (trans _ _ _ (regraph between moved)
      (respects_settled refl trans respects timeout _ leads.2))

end Respects

/-! ## What services are asked and told -/

/-- A contact of a service, while something is committed. -/
inductive Contact where
  | asked (service : String) (batch : List Proposal)
  | replied (service : String) (reply : Reply (List NodeId))
  | told (service : String) (batch : List Proposal)

namespace Contact

/-- A reply that arrives in time. -/
def ofReply (service : String) : Reply (List NodeId) → List Contact
  | .late => []
  | reply => [.replied service reply]

def asking (services : Services σ) (batches : List (List Proposal)) : List Contact :=
  (services.zip batches).map fun (service, batch) => .asked service.1 batch

/-- The replies that arrive in time, in the order of their arrival. -/
def replying (arrival : List String) (replies : List (Reply (List NodeId))) : List Contact :=
  (arrival.zip replies).flatMap fun (service, reply) => ofReply service reply

/-- Every service is told its part of what was applied, unless this is nothing. -/
def telling (services : Services σ) (batches : List (List Proposal))
    (applied : List Proposal) : List Contact :=
  if applied.isEmpty then []
  else
    (services.zip batches).map fun (service, batch) =>
      .told service.1 (appliedPart applied batch)

end Contact

/-- A service that does as another one, and takes note of being asked, replying
and being told. -/
def watched (name : String) (service : Service (World σ)) :
    Service (World (σ × List Contact)) where
  initialise world :=
    let (answer, changed) := service.initialise world.bare
    (answer, changed.noting world.notes)
  close world :=
    let (answer, changed) := service.close world.bare
    (answer, changed.noting world.notes)
  update nodes := (service.update nodes).noting [] fun _ => []
  modified nodes := (service.modified nodes).noting [] fun _ => []
  prepare batch := (service.prepare batch).noting [.asked name batch] (Contact.ofReply name)
  commit batch := (service.commit batch).noting [.told name batch] fun _ => []

def watchAll (services : Services σ) : Services (σ × List Contact) :=
  services.map fun service => (service.1, watched service.1 service.2)

theorem batches_watchAll (services : Services σ) (repository : Repository)
    (proposals : List Proposal) :
    batches (watchAll services) repository proposals = batches services repository proposals := by
  simp [batches, watchAll]

theorem addressed_watchAll (services : Services σ) (proposals : List Proposal) :
    addressed (watchAll services) proposals = watchAll (addressed services proposals) := by
  unfold addressed
  split
  · rfl
  · rfl

theorem askAll_watchAll (services : Services σ) (timeout : Nat) {batches : List (List Proposal)}
    (enough : services.length ≤ batches.length) (world : World σ) (notes : List Contact) :
    ∃ arrival : List String, arrival.Perm (services.map Prod.fst) ∧
      askAll (watchAll services) timeout batches (world.noting notes) =
        ((askAll services timeout batches world).1,
          (askAll services timeout batches world).2.noting
            (notes ++ Contact.asking services batches ++
              Contact.replying arrival (askAll services timeout batches world).1)) := by
  obtain ⟨arrival, arrives, run⟩ := Call.round_noting
    (fun item : (String × Service (World σ)) × List Proposal => item.1.2.prepare item.2)
    (fun item => [Contact.asked item.1.1 item.2]) (fun item => Contact.ofReply item.1.1)
    (fun _ => rfl) timeout (services.zip batches) world notes
  refine ⟨arrival.map fun item => item.1.1, ?_, ?_⟩
  · have names : ((services.zip batches).map Prod.fst).map Prod.fst = services.map Prod.fst := by
      rw [List.map_fst_zip enough]
    rw [List.map_map] at names
    exact (arrives.map fun item => item.1.1).trans (.of_eq names)
  · unfold askAll watchAll Contact.asking Contact.replying
    rw [List.zip_map_left, List.map_map, List.zip_map_left, List.flatMap_map]
    rw [← List.map_eq_flatMap] at run
    exact run

theorem tellAll_watchAll (services : Services σ) (timeout : Nat) (batches : List (List Proposal))
    (applied : List Proposal) (world : World σ) (notes : List Contact) :
    (tellAll (watchAll services) timeout batches applied (world.noting notes)).2 =
      (tellAll services timeout batches applied world).2.noting
        (notes ++ (services.zip batches).map fun (service, batch) =>
          Contact.told service.1 (appliedPart applied batch)) := by
  obtain ⟨arrival, -, run⟩ := Call.round_noting
    (fun item : (String × Service (World σ)) × List Proposal =>
      item.1.2.commit (appliedPart applied item.2))
    (fun item => [Contact.told item.1.1 (appliedPart applied item.2)]) (fun _ _ => [])
    (fun _ => rfl) timeout (services.zip batches) world notes
  unfold tellAll watchAll
  rw [List.zip_map_left, List.map_map]
  rw [← List.map_eq_flatMap, List.flatMap_eq_nil_iff.mpr fun _ _ => rfl, List.append_nil] at run
  exact congrArg Prod.snd run

theorem firstPhase_watchAll (services : Services σ) (timeout : Nat) (proposals : List Proposal)
    (world : World σ) (notes : List Contact) :
    ∃ arrival : List String, arrival.Perm ((addressed services proposals).map Prod.fst) ∧
      firstPhase (watchAll services) timeout proposals (world.noting notes) =
        ((firstPhase services timeout proposals world).1,
          (firstPhase services timeout proposals world).2.noting
            (notes ++ Contact.asking (addressed services proposals)
                (batches services world.repository proposals) ++
              Contact.replying arrival (firstPhase services timeout proposals world).1)) := by
  obtain ⟨arrival, arrives, run⟩ := askAll_watchAll (addressed services proposals) timeout
    (length_addressed_le services world.repository proposals) world notes
  rw [← addressed_watchAll, ← batches_watchAll] at run
  refine ⟨arrival, arrives, run.trans ?_⟩
  rw [batches_watchAll, firstPhase]

theorem settled_watchAll (services : Services σ) (timeout : Nat) (batches : List (List Proposal))
    (applied : List Proposal) (moved : Graph) (between : World σ) (notes : List Contact) :
    settled (watchAll services) timeout batches applied moved (between.noting notes) =
      (settled services timeout batches applied moved between).noting
        (notes ++ Contact.telling services batches applied) := by
  unfold settled Contact.telling
  split
  · rw [List.append_nil]
  · exact tellAll_watchAll services timeout batches applied (withGraph between moved) notes

/-- A commit applies the proposals for nodes that every reply accepts, each if its node
is in the state to leave at that moment.  The order of the replies does not matter, and
a reply that is no answer prevents everything.  Where nothing is applied nothing is
changed and no service is told; else each is told once, after all replies. -/
theorem commit_unanimous (services : Services σ) (timeout : Nat) (proposals : List Proposal)
    (world : World σ) {between : World σ} {replies : List (Reply (List NodeId))}
    (asked : firstPhase services timeout proposals world = (replies, between))
    (targets : ∀ proposal ∈ proposals,
      (between.repository.graph.state? proposal.target).isSome = true) :
    ∃ applied moved final,
      applied = between.repository.graph.standing.inTurn (candidates proposals replies) ∧
      between.repository.graph.Moved applied moved ∧
      final = settled services timeout (batches services world.repository proposals) applied moved
        between ∧
      (commit services timeout proposals).apply world = (.ok applied, final) ∧
      (∀ others, others.Perm replies →
        (conclude services timeout (batches services world.repository proposals) proposals
          others).apply between = (.ok applied, final)) ∧
      ((∃ reply ∈ replies, ∀ answer, reply ≠ .answered answer) → applied = []) ∧
      (applied = [] → final = between) ∧
      replies.length = (addressed services proposals).length ∧
      ∃ arrival, arrival.Perm ((addressed services proposals).map Prod.fst) ∧
        (commit (watchAll services) timeout proposals).apply (world.noting []) =
          (.ok applied, final.noting
            (Contact.asking (addressed services proposals)
                (batches services world.repository proposals) ++
              Contact.replying arrival replies ++
              Contact.telling services (batches services world.repository proposals) applied)) := by
  have isProposal {proposal : Proposal} (isCandidate : proposal ∈ candidates proposals replies) :
      proposal ∈ proposals := List.mem_of_mem_filter isCandidate
  obtain ⟨moved, run, moves⟩ := applyAll_apply between.repository.graph
    (candidates proposals replies) fun proposal isCandidate =>
      targets proposal (isProposal isCandidate)
  have enough := length_addressed_le services world.repository proposals
  have concluded := conclude_apply services timeout
    (batches services world.repository proposals) replies between run moves.unmoved
  refine ⟨_, moved, _, rfl, moves, rfl, ?_, ?_, ?_, ?_, ?_, ?_⟩
  · rw [commit_apply, asked, concluded]
  · intro others reordered
    rw [conclude_perm services timeout _ proposals reordered, concluded]
  · intro given
    obtain ⟨reply, isReply, noAnswer⟩ := given
    have refused : candidates proposals replies = [] := by
      rw [candidates, List.filter_eq_nil_iff]
      intro proposal _
      rw [unanimous_eq_false isReply noAnswer]
      exact Bool.false_ne_true
    rw [refused]
    rfl
  · intro nothing
    rw [nothing]
    rfl
  · have number := length_askAll (addressed services proposals) timeout enough world
    rwa [← firstPhase, asked] at number
  · -- The watched services reply alike and leave the same world, so the rest is the same too.
    obtain ⟨arrival, arrives, watchedRun⟩ :=
      firstPhase_watchAll services timeout proposals world []
    rw [asked, List.nil_append] at watchedRun
    refine ⟨arrival, arrives, ?_⟩
    rw [commit_apply, watchedRun, ← settled_watchAll]
    have sameBatches := batches_watchAll services world.repository proposals
    have sameRepository : (world.noting ([] : List Contact)).repository = world.repository := rfl
    rw [sameRepository, sameBatches]
    exact conclude_apply (watchAll services) timeout _ replies _ run moves.unmoved

/-- A service that accepts what it likes, after a delay. -/
def approver (delay : Nat) (likes : NodeId → Bool) : Service (World σ) where
  initialise world := (.ok (), world)
  close world := (.ok (), world)
  update _ world := (⟨delay, fun later => (.answered [], later)⟩, world)
  modified _ world := (⟨delay, fun later => (.answered [], later)⟩, world)
  prepare batch world :=
    (⟨delay, fun later => (.answered ((batch.map Proposal.node).filter likes), later)⟩, world)
  commit _ world := (⟨delay, fun later => (.answered (), later)⟩, world)

/-- Two tasks that are open and could be closed. -/
def openTasks : World Unit :=
  ⟨Operation.run
    [.addNodeType "Task" .plain, .addState "open" .plain, .addState "closed" .plain,
      .mutate (.addNode ⟨0⟩ "a"), .mutate (.addNode ⟨0⟩ "b"),
      .mutate (.setState ⟨0⟩ (some ⟨0⟩)), .mutate (.setState ⟨1⟩ (some ⟨0⟩))]
    .empty, ()⟩

def closing (node : NodeId) : Proposal := ⟨node, some ⟨0⟩, ⟨1⟩, none⟩

def approvers : Services Unit :=
  [("slow", approver 7 fun _ => true), ("picky", approver 2 (· == ⟨0⟩))]

/-- The second task is not liked by all, and the first one is closed but once. -/
theorem commit_unanimous_openTasks :
    ∃ (moved : Graph) (final : World Unit) (earlier : List Contact),
      moved.standing ⟨0⟩ = some (some ⟨1⟩) ∧ moved.standing ⟨1⟩ = some (some ⟨0⟩) ∧
      (commit approvers 9 [closing ⟨0⟩, closing ⟨1⟩, closing ⟨0⟩]).apply openTasks =
        (.ok [closing ⟨0⟩], final) ∧
      (commit (watchAll approvers) 9 [closing ⟨0⟩, closing ⟨1⟩, closing ⟨0⟩]).apply
          (openTasks.noting []) =
        (.ok [closing ⟨0⟩], final.noting (earlier ++
          [.told "slow" [closing ⟨0⟩, closing ⟨0⟩],
            .told "picky" [closing ⟨0⟩, closing ⟨0⟩]])) := by
  obtain ⟨applied, moved, final, chosen, moves, -, run, -, -, -, -, arrival, -, watchedRun⟩ :=
    commit_unanimous approvers 9 [closing ⟨0⟩, closing ⟨1⟩, closing ⟨0⟩] openTasks rfl
      (by decide)
  have one : applied = [closing ⟨0⟩] := by
    rw [chosen]
    decide
  rw [one] at moves run watchedRun
  have told : Contact.telling approvers (batches approvers openTasks.repository
        [closing ⟨0⟩, closing ⟨1⟩, closing ⟨0⟩]) [closing ⟨0⟩] =
      [.told "slow" [closing ⟨0⟩, closing ⟨0⟩], .told "picky" [closing ⟨0⟩, closing ⟨0⟩]] := by
    rfl
  rw [told] at watchedRun
  refine ⟨moved, final, _, ?_, ?_, run, watchedRun⟩
  · rw [moves.standing]
    decide
  · rw [moves.standing]
    decide

end Commit

end LifecycleGraph
