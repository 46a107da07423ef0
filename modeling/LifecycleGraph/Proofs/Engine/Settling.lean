import LifecycleGraph.Engine.Basic
import LifecycleGraph.Proofs.Engine.Rest
import LifecycleGraph.Proofs.Repository.Order

/-!
# Where automatic transitions come to rest

Without services, a round takes the automatic steps of the nodes that it looks at, and the
next round looks at those that were moved.  So every node has no automatic step when it is
looked at for the last time, and only others are moved after that.  It has none at the end
either, unless the moves of the others open one for it.
-/

set_option autoImplicit false

namespace LifecycleGraph

open Graph

/-- A state change as the history of a run has it. -/
def Proposal.record (run : Nat) (proposal : Proposal) : Record :=
  ⟨run, proposal.node, proposal.source, proposal.target⟩

/-! ## Steps of different nodes -/

/-- Proposals for different nodes that are in the states to leave are all applied. -/
theorem Standing.inTurn_eq_self {standing : Standing} {proposals : List Proposal}
    (distinct : (proposals.map Proposal.node).Nodup)
    (there : ∀ proposal ∈ proposals, standing proposal.node = some proposal.source) :
    standing.inTurn proposals = proposals := by
  induction proposals generalizing standing with
  | nil => rfl
  | cons proposal rest inductionHypothesis =>
      obtain ⟨notAgain, distinct⟩ := List.nodup_cons.mp distinct
      rw [inTurn, if_pos (there proposal (List.mem_cons_self ..)), inductionHypothesis distinct]
      intro other inRest
      have otherNode : other.node ≠ proposal.node := fun same =>
        notAgain (same ▸ List.mem_map_of_mem inRest)
      rw [move, if_neg otherNode]
      exact there other (List.mem_cons_of_mem _ inRest)

namespace Commit

variable {σ : Type}

/-- Without services, the proposals are applied in turn. -/
theorem leads_commit_alone (timeout : Nat) (proposals : List Proposal) (world : World σ) :
    (commit [] timeout proposals).Leads world
      (fun applied changed => applied = world.repository.graph.standing.inTurn proposals ∧
        ∃ moved, world.repository.graph.Moved applied moved ∧ changed = withGraph world moved)
      fun _ => ∃ proposal ∈ proposals,
        world.repository.graph.state? proposal.target = none := by
  have nobodyAsked : firstPhase [] timeout proposals world = ([], world) := by
    rw [firstPhase, addressed, ite_self]
    rfl
  have all : candidates proposals [] = proposals := List.filter_eq_self.mpr fun _ _ => rfl
  have leads := leads_applyAll world.repository.graph proposals
  rw [Change.Leads, commit_apply, nobodyAsked]
  cases applying : (applyAll proposals).apply world.repository.graph with
  | mk answer moved =>
    rw [Change.Leads, applying] at leads
    rw [← all] at applying
    cases answer with
    | error fault =>
        rw [conclude_stopped [] timeout _ [] world applying]
        exact leads
    | ok applied =>
        obtain ⟨chosen, moves⟩ := leads
        rw [conclude_apply [] timeout _ [] world applying moves.unmoved]
        refine ⟨chosen, moved, moves, ?_⟩
        rw [settled]
        split
        · rename_i nothing
          rw [moves.unmoved (List.isEmpty_iff.mp nothing)]
          rfl
        · rfl

end Commit

/-! ## Rounds -/

namespace Engine

variable {σ : Type} {engine : Engine σ}

/-- The second engine is the first one after some state changes of a run. -/
structure Shifted (run : Nat) (old : Engine σ) (moves : List Proposal) (new : Engine σ) :
    Prop where
  services : new.services = old.services
  history : new.history = old.history ++ moves.map (Proposal.record run)
  moved : old.graph.Moved moves new.graph
  world : new.world = Commit.withGraph old.world new.graph

section Shifted

variable {run : Nat} {moves further : List Proposal} {old between new : Engine σ}

theorem Shifted.trans (one : Shifted run old moves between)
    (two : Shifted run between further new) : Shifted run old (moves ++ further) new where
  services := two.services.trans one.services
  history := by
    rw [two.history, one.history, List.map_append, List.append_assoc]
  moved := one.moved.trans two.moved
  world := by
    rw [two.world, one.world]
    rfl

theorem Shifted.repository (shifted : Shifted run old moves new) :
    new.world.repository = { old.world.repository with graph := new.graph } := by
  rw [shifted.world]
  rfl

theorem Shifted.states_eq (shifted : Shifted run old moves new) :
    new.graph.states = old.graph.states := shifted.moved.states_eq

end Shifted

/-- Without services, a transition of different nodes takes their automatic steps. -/
theorem leads_transition_alone (alone : engine.services = [])
    (sourced : Sourced engine.graph.states) (run : Nat) {nodes : List NodeId}
    (distinct : nodes.Nodup) :
    (transition run (nodes.map fun node => (node, none))).Leads engine
      (fun moved changed =>
        moved = (engine.world.repository.automaticSteps nodes).map Proposal.node ∧
        Shifted run engine (engine.world.repository.automaticSteps nodes) changed)
      fun _ => ∃ proposal ∈ engine.world.repository.automaticSteps nodes,
        engine.graph.state? proposal.target = none := by
  have proposed : (engine.world.repository.proposals (nodes.map fun node => (node, none))
      .empty).1 = engine.world.repository.automaticSteps nodes :=
    Repository.proposals_eq sourced nodes Repository.genuine_empty
  have inTurn : engine.graph.standing.inTurn (engine.world.repository.automaticSteps nodes) =
      engine.world.repository.automaticSteps nodes := by
    refine Standing.inTurn_eq_self ?_ fun proposal member => ?_
    · rw [Repository.map_node_automaticSteps]
      exact distinct.filter _
    · exact (Repository.of_mem_automaticSteps member).2.2
  rw [transition]
  refine Change.leads_get_bind ?_
  simp only
  rw [alone, proposed]
  refine Change.leads_bind (fun applied changed =>
      applied = engine.world.repository.automaticSteps nodes ∧
        ∃ moved, engine.graph.Moved applied moved ∧
          changed = { engine with world := Commit.withGraph engine.world moved })
    (Change.leads_within ((Commit.leads_commit_alone engine.timeout _ engine.world).imp ?_
      fun _ missing => missing)) ?_
  · intro applied world outcome
    obtain ⟨chosen, moved, moves, rfl⟩ := outcome
    exact ⟨chosen.trans inTurn, moved, moves, rfl⟩
  intro applied changed outcome
  obtain ⟨rfl, moved, moves, rfl⟩ := outcome
  refine Change.leads_bind (fun _ => Shifted run engine
    (engine.world.repository.automaticSteps nodes)) (Change.leads_modify ?_) ?_
  · exact ⟨rfl, rfl, moves, rfl⟩
  · exact fun _ _ shifted => Change.leads_pure ⟨rfl, shifted⟩

/-- Without services, a round takes the automatic steps of the nodes that it looks at. -/
theorem leads_round_alone (alone : engine.services = []) (sourced : Sourced engine.graph.states)
    (run rounds : Nat) {spread : Spread} (sorted : spread.pending.Sorted)
    {post : Option (Ascending NodeId) → Engine σ → Prop} {stopped : Engine σ → Prop}
    (onwards :
      let steps := engine.world.repository.automaticSteps spread.pending.members
      let next := Ascending.ofList (steps.map Proposal.node)
      ∀ changed, Shifted run engine steps changed →
        (if next.isEmpty then pure (some spread.touched)
          else modifiedRounds run rounds
            ⟨next, spread.seen.union .empty, spread.touched.union next⟩).Leads
          changed post stopped)
    (missing : ∀ proposal ∈ engine.world.repository.automaticSteps spread.pending.members,
      engine.graph.state? proposal.target = none → ∀ changed, stopped changed) :
    (modifiedRounds run (rounds + 1) spread).Leads engine post stopped := by
  rw [modifiedRounds]
  refine Change.leads_get_bind ?_
  have unasked : callAll engine.services engine.timeout (·.modified spread.pending.members)
      engine.world = (.empty, engine.world) := by
    rw [alone]
    rfl
  simp only [unasked]
  refine Change.leads_set_bind ?_
  refine Change.leads_bind _ ((leads_transition_alone alone sourced run sorted.nodup).imp
    (fun _ _ outcome => outcome) ?_) ?_
  · rintro changed ⟨proposal, isStep, noState⟩
    exact missing proposal isStep noState changed
  · intro moved changed outcome
    obtain ⟨rfl, shifted⟩ := outcome
    exact onwards changed shifted

/-- What the rounds keep: each node that matters is looked at next, or came to rest. -/
structure Watching (run : Nat) (start : Engine σ) (nodes : List NodeId) (moves : List Proposal)
    (spread : Spread) (engine : Engine σ) : Prop where
  shifted : Shifted run start moves engine
  sorted : spread.pending.Sorted
  watched : ∀ id, id ∈ nodes ∨ id ∈ spread.touched.members →
    id ∈ spread.pending.members ∨ start.world.repository.CameToRest moves engine.graph id

section Watching

variable {run : Nat} {start changed : Engine σ} {nodes : List NodeId} {moves : List Proposal}
  {spread : Spread}

/-- After the steps of the nodes that were looked at, those that took one are looked at next. -/
theorem Watching.step (watching : Watching run start nodes moves spread engine)
    (shifted : Shifted run engine
      (engine.world.repository.automaticSteps spread.pending.members) changed)
    (seen : Ascending NodeId) :
    let steps := engine.world.repository.automaticSteps spread.pending.members
    let next := Ascending.ofList (steps.map Proposal.node)
    Watching run start nodes (moves ++ steps) ⟨next, seen, spread.touched.union next⟩ changed := by
  intro steps next
  have isNext (id : NodeId) : id ∈ next.members ↔
      id ∈ spread.pending.members ∧
        (engine.world.repository.automaticStep? id).isSome = true := by
    rw [Ascending.mem_ofList, Repository.map_node_automaticSteps, List.mem_filter]
  refine ⟨watching.shifted.trans shifted, Ascending.sorted_ofList _, fun id matters => ?_⟩
  -- What was looked at is moved or comes to rest here; anything else came to rest before.
  by_cases isPending : id ∈ spread.pending.members
  · cases isStep : engine.world.repository.automaticStep? id with
    | some proposal => exact .inl ((isNext id).mpr ⟨isPending, by rw [isStep]; rfl⟩)
    | none =>
        refine .inr ⟨moves, steps, engine.graph, rfl, watching.shifted.moved, shifted.moved, ?_, ?_⟩
        · intro proposal member same
          rw [← same, (Repository.of_mem_automaticSteps member).2.1] at isStep
          cases isStep
        · rw [← watching.shifted.repository]
          exact Repository.atRest_iff.mpr isStep
  · have matteredBefore : id ∈ nodes ∨ id ∈ spread.touched.members := by
      refine matters.imp_right fun isTouched => ?_
      rw [Ascending.union, Ascending.mem_insertAll] at isTouched
      exact isTouched.resolve_left fun inNext => isPending ((isNext id).mp inNext).1
    have rests := (watching.watched id matteredBefore).resolve_left isPending
    refine .inr (rests.onwards shifted.moved fun proposal member same => isPending ?_)
    rw [← same]
    exact (Repository.of_mem_automaticSteps member).1

/-- Where the rounds end, every node that matters came to rest. -/
theorem leads_modifiedRounds_alone (alone : start.services = [])
    (sourced : Sourced start.graph.states) (rounds : Nat)
    (watching : Watching run start nodes moves spread engine) :
    (modifiedRounds run rounds spread).Leads engine
      (fun answer changed => ∃ moves, Shifted run start moves changed ∧
        ∀ touched, answer = some touched → ∀ id, id ∈ nodes ∨ id ∈ touched.members →
          start.world.repository.CameToRest moves changed.graph id)
      fun _ => True := by
  induction rounds generalizing moves spread engine with
  | zero => exact Change.leads_pure ⟨moves, watching.shifted, fun _ isSome => by cases isSome⟩
  | succ rounds inductionHypothesis =>
      have sourcedHere : Sourced engine.graph.states := by rwa [watching.shifted.states_eq]
      refine leads_round_alone (watching.shifted.services.trans alone) sourcedHere run rounds
        watching.sorted ?_ fun _ _ _ _ => trivial
      intro steps next changed shifted
      have onwards := watching.step shifted (spread.seen.union .empty)
      split
      · rename_i nobodyNext
        refine Change.leads_pure
          ⟨moves ++ steps, onwards.shifted, fun touched same id matters => ?_⟩
        cases same
        refine (onwards.watched id (matters.imp_right fun isTouched => ?_)).resolve_left ?_
        · exact (Ascending.mem_insertAll _ _ _).mpr (.inr isTouched)
        · have noMembers : next.members = [] := List.isEmpty_iff.mp nobodyNext
          rw [noMembers]
          exact List.not_mem_nil
      · exact inductionHypothesis onwards

end Watching

/-- A round over nodes at rest is the last one, and changes nothing. -/
theorem leads_modifiedRounds_of_atRest (alone : engine.services = [])
    (sourced : Sourced engine.graph.states) (run rounds : Nat) {spread : Spread}
    (sorted : spread.pending.Sorted)
    (atRest : ∀ id ∈ spread.pending.members, engine.world.repository.AtRest id) :
    (modifiedRounds run rounds spread).Leads engine
      (fun answer changed => (∀ touched, answer = some touched → touched = spread.touched) ∧
        changed.world = engine.world)
      fun changed => changed.world = engine.world := by
  cases rounds with
  | zero => exact Change.leads_pure ⟨fun _ isSome => (by cases isSome), rfl⟩
  | succ rounds =>
      have noSteps : engine.world.repository.automaticSteps spread.pending.members = [] :=
        List.filterMap_eq_nil_iff.mpr fun id isPending =>
          Repository.atRest_iff.mp (atRest id isPending)
      refine leads_round_alone alone sourced run rounds sorted ?_ ?_
      · rw [noSteps]
        intro steps next changed shifted
        refine Change.leads_pure ⟨fun touched same => (Option.some.inj same).symm, ?_⟩
        rw [shifted.world, shifted.moved.unmoved rfl]
        rfl
      · rw [noSteps]
        exact fun _ member => by cases member

/-! ## Propagation -/

theorem leads_save (nodes : List NodeId) (engine : Engine σ) :
    (save nodes).Leads engine (fun _ changed => ∃ storage, changed = { engine with storage })
      (fun changed => changed = engine) := by
  rw [save]
  refine Change.leads_get_bind ?_
  split
  · exact Change.leads_pure ⟨engine.storage, rfl⟩
  · refine Change.leads_ask_bind (fun saved _ => ?_) fun _ _ => rfl
    split
    · exact Change.leads_set ⟨_, rfl⟩
    · rfl

/-- A propagation comes to what its rounds come to, and saves. -/
theorem leads_propagate (nodes : List NodeId)
    {mid : Option (Ascending NodeId) → Engine σ → Prop} {post : List NodeId → Engine σ → Prop}
    {stopped : Engine σ → Prop}
    (rounds : (modifiedRounds engine.runs engine.maxRounds
      ⟨.ofList nodes, .ofList nodes, .empty⟩).Leads { engine with runs := engine.runs + 1 }
        mid stopped)
    (usedUp : ∀ settled, mid none settled → stopped settled)
    (answered : ∀ touched settled storage, mid (some touched) settled →
      post touched.members { settled with storage })
    (unsaved : ∀ touched settled, mid (some touched) settled → stopped settled) :
    (propagate nodes).Leads engine post stopped := by
  rw [propagate]
  refine Change.leads_bind (fun run state =>
    run = engine.runs ∧ state = { engine with runs := engine.runs + 1 }) ?_ ?_
  · exact ⟨rfl, rfl⟩
  intro run state outcome
  obtain ⟨rfl, rfl⟩ := outcome
  refine Change.leads_get_bind ?_
  refine Change.leads_bind mid rounds ?_
  intro answer settled outcome
  cases answer with
  | none => exact usedUp settled outcome
  | some touched =>
      refine Change.leads_bind _ ((leads_save nodes settled).imp (fun _ _ saved => saved) ?_) ?_
      · intro changed same
        rw [same]
        exact unsaved touched settled outcome
      · intro _ changed saved
        obtain ⟨storage, rfl⟩ := saved
        exact Change.leads_pure (answered touched settled storage outcome)

/-- Without services, every node that is given to a propagation or that it moves comes to rest. -/
theorem leads_propagate_alone (alone : engine.services = [])
    (sourced : Sourced engine.graph.states) (nodes : List NodeId) :
    (propagate nodes).Leads engine
      (fun touched changed => ∃ moves, Shifted engine.runs engine moves changed ∧
        ∀ id, id ∈ nodes ∨ id ∈ touched →
          engine.world.repository.CameToRest moves changed.graph id)
      fun _ => True := by
  have watching : Watching engine.runs engine nodes [] ⟨.ofList nodes, .ofList nodes, .empty⟩
      { engine with runs := engine.runs + 1 } := by
    refine ⟨⟨rfl, (List.append_nil _).symm, .refl _, rfl⟩, Ascending.sorted_ofList nodes,
      fun id matters => .inl ?_⟩
    rcases matters with given | isTouched
    · exact (Ascending.mem_ofList nodes id).mpr given
    · cases isTouched
  refine leads_propagate nodes (leads_modifiedRounds_alone alone sourced engine.maxRounds watching)
    (fun _ _ => trivial) ?_ fun _ _ _ => trivial
  intro touched settled storage outcome
  obtain ⟨moves, shifted, rests⟩ := outcome
  exact ⟨moves, ⟨shifted.services, shifted.history, shifted.moved, shifted.world⟩,
    rests touched rfl⟩

/-- Without services, a propagation of nodes at rest moves nothing. -/
theorem leads_propagate_of_atRest (alone : engine.services = [])
    (sourced : Sourced engine.graph.states) {nodes : List NodeId}
    (atRest : ∀ id ∈ nodes, engine.world.repository.AtRest id) :
    (propagate nodes).Leads engine
      (fun touched changed => touched = [] ∧ changed.world = engine.world)
      fun changed => changed.world = engine.world := by
  let begun : Engine σ := { engine with runs := engine.runs + 1 }
  have aloneToo : begun.services = [] := alone
  have pendingAtRest (id : NodeId) (isPending : id ∈ (Ascending.ofList nodes).members) :
      engine.world.repository.AtRest id := atRest id ((Ascending.mem_ofList nodes id).mp isPending)
  refine leads_propagate nodes (leads_modifiedRounds_of_atRest aloneToo sourced engine.runs
    engine.maxRounds (Ascending.sorted_ofList nodes) pendingAtRest) ?_ ?_ ?_
  · exact fun _ outcome => outcome.2
  · intro touched settled storage outcome
    rw [outcome.1 touched rfl]
    exact ⟨rfl, outcome.2⟩
  · exact fun _ _ outcome => outcome.2

/-- The history of a propagation without services tells for every node that was given to it or
that it moved when the node was at rest, so that only other nodes were moved since then.  If that
disturbs none of them, they are all at rest, and propagating any of them moves nothing. -/
theorem propagate_settles (reachable : Reachable engine.world.repository)
    (alone : engine.services = []) {nodes touched : List NodeId} {final : Engine σ}
    (run : (propagate nodes).apply engine = (.ok touched, final)) :
    (∃ changes, final.history = engine.history ++ changes.map (Proposal.record engine.runs) ∧
      ∀ id, id ∈ nodes ∨ id ∈ touched →
        engine.world.repository.CameToRest changes final.graph id) ∧
      (engine.world.repository.Undisturbed →
        (∀ id, id ∈ nodes ∨ id ∈ touched → final.world.repository.AtRest id) ∧
          ∀ again, (∀ id ∈ again, id ∈ nodes ∨ id ∈ touched) →
            (propagate again).Leads final
              (fun moved changed => moved = [] ∧ changed.world = final.world)
              fun changed => changed.world = final.world) := by
  have sourced : Sourced engine.graph.states := (Reached.ordered reachable).sourced
  have leads := leads_propagate_alone alone sourced nodes
  rw [Change.Leads, run] at leads
  obtain ⟨changes, shifted, rests⟩ := leads
  refine ⟨⟨changes, shifted.history, rests⟩, fun undisturbed => ?_⟩
  have atRest (id : NodeId) (matters : id ∈ nodes ∨ id ∈ touched) :
      final.world.repository.AtRest id := by
    rw [shifted.repository]
    exact undisturbed changes final.graph id (rests id matters)
  have sourcedStill : Sourced final.graph.states := by rwa [shifted.states_eq]
  exact ⟨atRest, fun again among => leads_propagate_of_atRest (shifted.services.trans alone)
    sourcedStill fun id isAgain => atRest id (among id isAgain)⟩

/-- An engine without services. -/
def unattended (repository : Repository) : Engine Unit :=
  ⟨⟨repository, ()⟩, [], 9, 9, none, [], 0⟩

theorem repository_unattended (repository : Repository) :
    (unattended repository).world.repository = repository := rfl

/-- Two new tasks, of which the first is urgent.  What is new is opened, and what is open and
urgent is done. -/
def newTasks : Repository :=
  Operation.run
    [.addNodeType "Task" .plain, .newTag none "urgent", .addState "done" .plain,
      .addState "open" { StateDeclaration.plain with transitions := [("done", .text "urgent")] },
      .addState "new" { StateDeclaration.plain with transitions := [("open", .boolean true)] },
      .refresh, .mutate (.addNode ⟨0⟩ "a"), .mutate (.addNode ⟨0⟩ "b"),
      .mutate (.addTag ⟨0⟩ ⟨0⟩), .mutate (.setState ⟨0⟩ (some ⟨2⟩)),
      .mutate (.setState ⟨1⟩ (some ⟨2⟩))]
    .empty

/-- The urgent task is done and the other one open, both are at rest, and nothing is left to
be moved. -/
theorem propagate_settles_newTasks :
    newTasks.hasBlindGuards = true ∧ ∃ final,
      (propagate [⟨0⟩, ⟨1⟩]).apply (unattended newTasks) = (.ok [⟨0⟩, ⟨1⟩], final) ∧
        final.graph.standing ⟨0⟩ = some (some ⟨0⟩) ∧
        final.graph.standing ⟨1⟩ = some (some ⟨1⟩) ∧
        final.world.repository.AtRest ⟨0⟩ ∧ final.world.repository.AtRest ⟨1⟩ ∧
        (propagate [⟨0⟩, ⟨1⟩]).Leads final
          (fun moved changed => moved = [] ∧ changed.world = final.world)
          fun changed => changed.world = final.world := by
  have reachable : Reachable newTasks := reachable_run _
  have blind : newTasks.hasBlindGuards = true := by decide +kernel
  have undisturbed := Repository.undisturbed_of_hasBlindGuards blind
    (Reached.ordered reachable).sourced
  rw [← repository_unattended newTasks] at reachable undisturbed
  have outcome :
      let run := (propagate [⟨0⟩, ⟨1⟩]).apply (unattended newTasks)
      run.1.toOption = some [⟨0⟩, ⟨1⟩] ∧ run.2.graph.standing ⟨0⟩ = some (some ⟨0⟩) ∧
        run.2.graph.standing ⟨1⟩ = some (some ⟨1⟩) := by
    decide +kernel
  refine ⟨blind, ?_⟩
  cases run : (propagate [⟨0⟩, ⟨1⟩]).apply (unattended newTasks) with
  | mk answer final =>
      rw [run] at outcome
      obtain ⟨answered, first, second⟩ := outcome
      cases answer with
      | error fault => cases answered
      | ok touched =>
          cases answered
          obtain ⟨-, settled⟩ := propagate_settles reachable rfl run
          obtain ⟨atRest, again⟩ := settled undisturbed
          refine ⟨final, rfl, first, second, ?_, ?_, ?_⟩
          · exact atRest ⟨0⟩ (.inl (List.mem_cons_self ..))
          · exact atRest ⟨1⟩ (.inl (List.mem_cons_of_mem _ (List.mem_singleton_self _)))
          · exact again [⟨0⟩, ⟨1⟩] fun _ member => .inl member

/-- A job that waits until the one that it needs is done, and that one at work.  It is done at
the first occasion. -/
def waitingJob : Repository :=
  Operation.run
    [.addNodeType "Job" ⟨none, "", [("needs", .text "Job")]⟩, .addState "done" .plain,
      .addState "working" { StateDeclaration.plain with transitions := [("done", .boolean true)] },
      .addState "waiting"
        { StateDeclaration.plain with transitions := [("done", .text "needs\x7bdone\x7d")] },
      .refresh, .mutate (.addNode ⟨0⟩ "a"), .mutate (.addNode ⟨0⟩ "b"),
      .mutate (.setPropertyNamed ⟨0⟩ "needs" (.node ⟨1⟩)),
      .mutate (.setState ⟨0⟩ (some ⟨2⟩)), .mutate (.setState ⟨1⟩ (some ⟨1⟩))]
    .empty

/-- The waiting job is looked at before the other one is done, and not again: it is left with a
step to take, which a second propagation takes. -/
theorem waitingJob_left_unsettled :
    let once := (propagate [⟨0⟩, ⟨1⟩]).apply (unattended waitingJob)
    let twice := (propagate [⟨0⟩, ⟨1⟩]).apply once.2
    once.1.toOption = some [⟨1⟩] ∧
      once.2.world.repository.automaticStep? ⟨0⟩ = some ⟨⟨0⟩, some ⟨2⟩, ⟨0⟩, none⟩ ∧
      twice.1.toOption = some [⟨0⟩] ∧ twice.2.graph.standing ⟨0⟩ = some (some ⟨0⟩) := by
  decide +kernel

end Engine

end LifecycleGraph
