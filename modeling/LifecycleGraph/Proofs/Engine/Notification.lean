import LifecycleGraph.Engine.Basic
import LifecycleGraph.Proofs.Engine.Commit

/-!
# What services are told

A service is told its batch, reduced to the nodes that were moved.  If a batch
has one proposal for each of its nodes, these are the proposals that were applied,
in their order, with the labels that their targets have for the service.  Of several
proposals for one node all are told when one of them is applied.
-/

set_option autoImplicit false

namespace LifecycleGraph

namespace Commit

variable {σ : Type}

/-! ## What is told of a batch -/

theorem appliedPart_labelFor (repository : Repository) (service : String)
    (applied proposals : List Proposal) :
    appliedPart applied (repository.labelFor service proposals) =
      repository.labelFor service (appliedPart applied proposals) := by
  rw [appliedPart, Repository.labelFor, Repository.labelFor, appliedPart, List.filter_map]
  rfl

/-- Of a batch with one proposal for each node, the proposals for the nodes that some of
them moved are these. -/
theorem appliedPart_of_sublist {applied proposals : List Proposal}
    (chosen : applied.Sublist proposals) (distinct : (proposals.map Proposal.node).Nodup) :
    appliedPart applied proposals = applied := by
  induction chosen with
  | slnil => rfl
  | @cons chosen rest proposal isChosen inductionHypothesis =>
      rw [List.map_cons, List.nodup_cons] at distinct
      have passedOver : (chosen.any fun done => done.node == proposal.node) = false := by
        rw [List.any_eq_false]
        intro done isApplied same
        refine distinct.1 (List.mem_map.mpr ⟨done, isChosen.subset isApplied, ?_⟩)
        exact LawfulBEq.eq_of_beq same
      rw [appliedPart, List.filter_cons, passedOver, if_neg Bool.false_ne_true]
      exact inductionHypothesis distinct.2
  | @cons_cons chosen rest proposal isChosen inductionHypothesis =>
      rw [List.map_cons, List.nodup_cons] at distinct
      rw [appliedPart, List.filter_cons, List.any_cons, beq_self_eq_true, Bool.true_or, if_pos rfl]
      refine congrArg (proposal :: ·) (.trans ?_ (inductionHypothesis distinct.2))
      refine List.filter_congr fun other inRest => ?_
      have otherNode : (proposal.node == other.node) = false := by
        rw [beq_eq_false_iff_ne]
        intro same
        exact distinct.1 (List.mem_map.mpr ⟨other, inRest, same.symm⟩)
      rw [List.any_cons, otherNode, Bool.false_or]

/-! ## What is told in a commit -/

namespace Contact

def told? : Contact → Option (String × List Proposal)
  | told service batch => some (service, batch)
  | _ => none

theorem told_asking (services : Services σ) (batches : List (List Proposal)) :
    (asking services batches).filterMap told? = [] := by
  rw [asking, List.filterMap_map, List.filterMap_eq_nil_iff]
  exact fun _ _ => rfl

theorem told_replying (arrival : List String) (replies : List (Reply (List NodeId))) :
    (replying arrival replies).filterMap told? = [] := by
  rw [List.filterMap_eq_nil_iff]
  intro contact isContact
  obtain ⟨⟨service, reply⟩, -, isReply⟩ := List.mem_flatMap.mp isContact
  cases reply with
  | late => cases isReply
  | answered answer =>
      rw [List.mem_singleton.mp isReply]
      rfl
  | failed reason =>
      rw [List.mem_singleton.mp isReply]
      rfl
  | aborted =>
      rw [List.mem_singleton.mp isReply]
      rfl

/-- Every service is told the proposals for the nodes that were moved, with its labels. -/
theorem told_telling (services : Services σ) (repository : Repository)
    (proposals applied : List Proposal) :
    (telling services (batches services repository proposals) applied).filterMap told? =
      if applied.isEmpty then []
      else services.map fun service =>
        (service.1, repository.labelFor service.1 (appliedPart applied proposals)) := by
  unfold telling
  split
  · rfl
  · rename_i something
    clear something
    induction services with
    | nil => rfl
    | cons service rest inductionHypothesis =>
        rw [batches] at inductionHypothesis
        simp only [batches, List.map_cons, List.zip_cons_cons, List.filterMap_cons, told?,
          appliedPart_labelFor, inductionHypothesis]

end Contact

/-- Services that are watched make a commit come to the same, and what they are told is
the part of their batch that is for the nodes that were moved. -/
theorem commit_watched (services : Services σ) (timeout : Nat) (proposals : List Proposal)
    (world : World σ) {outcome : Except Fault (List Proposal)} {final : World σ}
    (run : (commit services timeout proposals).apply world = (outcome, final)) :
    ∃ contacts,
      (commit (watchAll services) timeout proposals).apply (world.noting []) =
        (outcome, final.noting contacts) ∧
      (∀ fault, outcome = .error fault → contacts.filterMap Contact.told? = []) ∧
      ∀ applied, outcome = .ok applied →
        applied.Sublist proposals ∧
        (∃ moved, (firstPhase services timeout proposals world).2.repository.graph.Moved applied
            moved ∧
          final = settled services timeout (batches services world.repository proposals) applied
            moved (firstPhase services timeout proposals world).2) ∧
        contacts.filterMap Contact.told? =
          if applied.isEmpty then []
          else services.map fun service =>
            (service.1, world.repository.labelFor service.1 (appliedPart applied proposals)) := by
  obtain ⟨arrival, -, phase⟩ := firstPhase_watchAll services timeout proposals world []
  rw [List.nil_append] at phase
  have sameBatches : batches (watchAll services) (world.noting ([] : List Contact)).repository
      proposals = batches services world.repository proposals :=
    batches_watchAll services world.repository proposals
  rw [commit_apply, phase, sameBatches]
  rw [commit_apply] at run
  generalize firstPhase services timeout proposals world = first at run ⊢
  obtain ⟨replies, between⟩ := first
  have leads := leads_applyAll between.repository.graph (candidates proposals replies)
  cases applying : (applyAll (candidates proposals replies)).apply between.repository.graph with
  | mk answer moved =>
    rw [Change.Leads, applying] at leads
    cases answer with
    | error fault =>
        rw [conclude_stopped services timeout _ replies between applying] at run
        cases run
        refine ⟨_, conclude_stopped (watchAll services) timeout _ replies _ applying, ?_, ?_⟩
        · intro _ _
          rw [List.filterMap_append, Contact.told_asking, Contact.told_replying]
          rfl
        · intro applied isOk
          cases isOk
    | ok applied =>
        obtain ⟨chosen, moves⟩ := leads
        rw [conclude_apply services timeout _ replies between applying moves.unmoved] at run
        cases run
        have watchedRun := conclude_apply (watchAll services) timeout
          (batches services world.repository proposals) replies
          (between.noting (Contact.asking (addressed services proposals)
            (batches services world.repository proposals) ++ Contact.replying arrival replies))
          applying moves.unmoved
        rw [settled_watchAll] at watchedRun
        refine ⟨_, watchedRun, ?_, ?_⟩
        · intro fault isError
          cases isError
        · intro again isOk
          cases isOk
          refine ⟨?_, ⟨moved, moves, rfl⟩, ?_⟩
          · rw [chosen]
            exact (Standing.inTurn_sublist _ _).trans List.filter_sublist
          · rw [List.filterMap_append, List.filterMap_append, Contact.told_asking,
              Contact.told_replying, Contact.told_telling]
            rfl

/-- Where a batch has one proposal for each of its nodes, every service is told exactly what
was applied, once, with the labels that the targets had for it when the batch was made. -/
theorem commit_tells_applied (services : Services σ) (timeout : Nat) {proposals : List Proposal}
    (distinct : (proposals.map Proposal.node).Nodup) (world : World σ)
    {outcome : Except Fault (List Proposal)} {final : World σ}
    (run : (commit services timeout proposals).apply world = (outcome, final)) :
    ∃ contacts,
      (commit (watchAll services) timeout proposals).apply (world.noting []) =
        (outcome, final.noting contacts) ∧
      (∀ fault, outcome = .error fault → contacts.filterMap Contact.told? = []) ∧
      ∀ applied, outcome = .ok applied →
        (∃ moved, (firstPhase services timeout proposals world).2.repository.graph.Moved applied
            moved ∧
          final = settled services timeout (batches services world.repository proposals) applied
            moved (firstPhase services timeout proposals world).2) ∧
        contacts.filterMap Contact.told? =
          if applied.isEmpty then []
          else services.map fun service =>
            (service.1, world.repository.labelFor service.1 applied) := by
  obtain ⟨contacts, watchedRun, stopped, told⟩ :=
    commit_watched services timeout proposals world run
  refine ⟨contacts, watchedRun, stopped, fun applied isOk => ?_⟩
  obtain ⟨chosen, moves, isTold⟩ := told applied isOk
  rw [appliedPart_of_sublist chosen distinct] at isTold
  exact ⟨moves, isTold⟩

/-- One of two tasks is not liked by all, and the services are told of the other one. -/
theorem commit_tells_applied_openTasks :
    ([closing ⟨0⟩, closing ⟨1⟩].map Proposal.node).Nodup ∧
      ∃ final contacts,
        (commit (watchAll approvers) 9 [closing ⟨0⟩, closing ⟨1⟩]).apply (openTasks.noting []) =
          (.ok [closing ⟨0⟩], final) ∧
        final.notes = contacts ∧
        contacts.filterMap Contact.told? =
          [("slow", [closing ⟨0⟩]), ("picky", [closing ⟨0⟩])] := by
  have distinct : ([closing ⟨0⟩, closing ⟨1⟩].map Proposal.node).Nodup := by decide
  have one : ((commit approvers 9 [closing ⟨0⟩, closing ⟨1⟩]).apply openTasks).1 =
      .ok [closing ⟨0⟩] := by
    rfl
  cases run : (commit approvers 9 [closing ⟨0⟩, closing ⟨1⟩]).apply openTasks with
  | mk outcome final =>
      obtain rfl : outcome = .ok [closing ⟨0⟩] := by rwa [run] at one
      obtain ⟨contacts, watchedRun, -, told⟩ :=
        commit_tells_applied approvers 9 distinct openTasks run
      exact ⟨distinct, _, contacts, watchedRun, rfl, (told _ rfl).2⟩

/-- A task that is new, and can be kept or dropped when it is asked for. -/
def newTask : World Unit :=
  ⟨Operation.run
    [.registerService "archive" .plain, .addNodeType "Task" .plain,
      .addState "kept" { StateDeclaration.plain with services := some (.all "keep") },
      .addState "dropped" { StateDeclaration.plain with services := some (.all "drop") },
      .addState "new" { StateDeclaration.plain with
        transitions := [("kept", .boolean false), ("dropped", .boolean false)] },
      .mutate (.addNode ⟨0⟩ "a"), .mutate (.setState ⟨0⟩ (some ⟨2⟩))]
    .empty, ()⟩

def archived : Engine (Unit × List Contact) :=
  ⟨newTask.noting [], watchAll [("archive", approver 0 fun _ => true)], 9, 9, none, [], 0⟩

/-- When a task is asked to be kept and to be dropped it is kept, and the service is told
that it was dropped too. -/
theorem told_of_unapplied :
    let kept := (Engine.changeStates [(⟨0⟩, some ⟨0⟩), (⟨0⟩, some ⟨1⟩)]).apply archived
    kept.2.history = [⟨0, ⟨0⟩, some ⟨2⟩, ⟨0⟩⟩] ∧
      kept.2.graph.standing ⟨0⟩ = some (some ⟨0⟩) ∧
      kept.2.world.notes.filterMap Contact.told? =
        [("archive", [⟨⟨0⟩, some ⟨2⟩, ⟨0⟩, some "keep"⟩, ⟨⟨0⟩, some ⟨2⟩, ⟨1⟩, some "drop"⟩])] := by
  decide

end Commit

end LifecycleGraph
