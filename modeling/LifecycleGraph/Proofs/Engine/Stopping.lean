import Mathlib.Data.List.TakeWhile
import LifecycleGraph.Proofs.Engine.Commit

/-!
# Commits that are stopped

Proposals that are due are applied one after the other, up to the first one whose target is not
there.  If there is no such target all of them are applied and answered, and every service is
handed each of them.  Otherwise the commit fails: what comes before has been applied, no service is
told of it and the answer does not list it.
-/

set_option autoImplicit false

namespace LifecycleGraph

/-! ## Up to a missing target -/

namespace Graph

/-- Every node is in the state it was in, and so are the indices of the states. -/
structure SameStates (old new : Graph) : Prop where
  standing : new.standing = old.standing
  stateMembers : new.stateMembers = old.stateMembers

variable {graph between : Graph} {due : List Proposal}

/-- The state that the proposal leads to is there. -/
def hasTarget (graph : Graph) (proposal : Proposal) : Bool :=
  (graph.state? proposal.target).isSome

/-- The proposals before the first one whose target is not there. -/
def attainable (graph : Graph) (due : List Proposal) : List Proposal :=
  due.takeWhile graph.hasTarget

/-- What comes of proposals that are due: all of them, or that a target is missing. -/
def verdict (graph : Graph) (due : List Proposal) : Except Fault (List Proposal) :=
  match due.find? fun proposal => !graph.hasTarget proposal with
  | none => .ok due
  | some proposal => .error (.noState proposal.target)

theorem hasTarget_eq (state? : ∀ id, between.state? id = graph.state? id) :
    between.hasTarget = graph.hasTarget :=
  funext fun proposal => congrArg Option.isSome (state? proposal.target)

theorem attainable_eq (targets : between.hasTarget = graph.hasTarget) :
    between.attainable due = graph.attainable due := by
  rw [attainable, targets, attainable]

theorem verdict_eq (targets : between.hasTarget = graph.hasTarget) :
    between.verdict due = graph.verdict due := by
  rw [verdict, targets, verdict]

theorem verdict_of_attainable (complete : graph.attainable due = due) :
    graph.verdict due = .ok due := by
  have declared : ∀ proposal ∈ due, graph.hasTarget proposal = true :=
    List.takeWhile_eq_self_iff.mp complete
  have nothing : due.find? (fun proposal => !graph.hasTarget proposal) = none :=
    List.find?_eq_none.mpr fun proposal member => by simp [declared proposal member]
  rw [verdict, nothing]

theorem verdict_of_rest {proposal : Proposal} {rest : List Proposal}
    (cut : due = graph.attainable due ++ proposal :: rest) :
    graph.verdict due = .error (.noState proposal.target) := by
  have declared : ∀ other ∈ graph.attainable due, graph.hasTarget other = true :=
    fun _ => List.mem_takeWhile_imp
  have missing : graph.hasTarget proposal = false := by
    by_contra target
    -- The proposal would be among those before the first one whose target is not there.
    have longer : (graph.attainable due ++ proposal :: rest).takeWhile graph.hasTarget =
        graph.attainable due ++ (proposal :: rest).takeWhile graph.hasTarget :=
      List.takeWhile_append_of_pos declared
    rw [← cut, List.takeWhile_cons_of_pos (by simpa using target), ← attainable] at longer
    simp at longer
  have first : due.find? (fun other => !graph.hasTarget other) = some proposal :=
    List.find?_eq_some_iff_append.mpr ⟨by simp [missing], _, rest, cut, by simpa using declared⟩
  rw [verdict, first]

theorem verdict_cons {proposal : Proposal} (target : graph.hasTarget proposal = true) :
    graph.verdict (proposal :: due) = (graph.verdict due).map (proposal :: ·) := by
  rw [verdict, List.find?_cons_of_neg (by simp [target]), verdict]
  split <;> rfl

theorem verdict_of_missing {proposal : Proposal} (target : graph.hasTarget proposal = false) :
    graph.verdict (proposal :: due) = .error (.noState proposal.target) := by
  rw [verdict, List.find?_cons_of_pos (by simp [target])]

/-- No node is moved to a state that is not there. -/
theorem setState_of_missing {proposal : Proposal} (target : graph.hasTarget proposal = false) :
    (setState proposal.node (some proposal.target)).apply graph =
      (.error (.noState proposal.target), graph) := by
  have absent : graph.state? proposal.target = none := by simpa [hasTarget] using target
  simp [setState, Option.filter, absent]

end Graph

namespace Commit

open Graph

/-- The proposals that find their node in the state to leave are applied up to the first one whose
target is not there. -/
theorem exists_applyAll (graph : Graph) (proposals : List Proposal) :
    ∃ moved, (applyAll proposals).apply graph =
        (graph.verdict (graph.standing.inTurn proposals), moved) ∧
      graph.Moved (graph.attainable (graph.standing.inTurn proposals)) moved := by
  induction proposals generalizing graph with
  | nil => exact ⟨graph, rfl, .refl graph⟩
  | cons proposal rest inductionHypothesis =>
      rw [applyAll, Standing.inTurn, Change.apply_bind, Change.apply_get]
      by_cases inSource : graph.standing proposal.node = some proposal.source
      · rw [if_pos inSource]
        have isSource : (graph.node? proposal.node).map Node.state = some proposal.source :=
          inSource
        simp only [isSource, if_true]
        cases target : graph.hasTarget proposal with
        | true =>
            obtain ⟨between, first, moves⟩ := setState_apply target inSource
            obtain ⟨moved, others, further⟩ := inductionHypothesis between
            rw [Change.apply_bind, first]
            simp only [Change.apply_bind_pure, others]
            have standing : between.standing = graph.standing.move proposal := moves.standing
            have targets := hasTarget_eq moves.state?_eq
            rw [standing, attainable_eq targets] at further
            rw [standing, verdict_eq targets, verdict_cons target]
            refine ⟨moved, rfl, ?_⟩
            rw [attainable, List.takeWhile_cons_of_pos target]
            exact moves.trans further
        | false =>
            have missing := setState_of_missing target
            refine ⟨graph, ?_, ?_⟩
            · rw [Change.apply_bind, missing, verdict_of_missing target]
            · rw [attainable, List.takeWhile_cons_of_neg (by simp [target])]
              exact .refl graph
      · rw [if_neg inSource]
        have notSource : ¬ (graph.node? proposal.node).map Node.state = some proposal.source :=
          inSource
        simp only [notSource, if_false]
        exact inductionHypothesis graph

/-! ## Told or stopped -/

variable {σ : Type}

theorem sameStates_firstPhase {services : Services σ}
    (calm : ∀ service ∈ services, ∀ batch, (service.2.prepare batch).Respects
      (fun old new => old.repository.graph.SameStates new.repository.graph) fun _ => True)
    (timeout : Nat) (proposals : List Proposal) (world : World σ) :
    world.repository.graph.SameStates
      (firstPhase services timeout proposals world).2.repository.graph :=
  respects_asking (fun _ => ⟨rfl, rfl⟩)
    (fun _ _ _ one two => ⟨two.standing.trans one.standing,
      two.stateMembers.trans one.stateMembers⟩)
    calm timeout proposals world

/-- Each service is handed, with its own label, each of the proposals that were applied. -/
theorem exists_told (services : Services σ) (repository : Repository)
    {proposals applied : List Proposal} (among : applied ⊆ proposals) {proposal : Proposal}
    (isApplied : proposal ∈ applied) {service : String × Service (World σ)}
    (isService : service ∈ services) :
    ∃ batch, .told service.1 batch ∈
        Contact.telling services (batches services repository proposals) applied ∧
      repository.labelFor service.1 [proposal] ⊆ batch := by
  have paired : services.zip (batches services repository proposals) =
      services.map fun service => (service, repository.labelFor service.1 proposals) := by
    have same := List.zip_map' (f := id) (l := services)
      (g := fun service : String × Service (World σ) => repository.labelFor service.1 proposals)
    rwa [List.map_id] at same
  refine ⟨appliedPart applied (repository.labelFor service.1 proposals), ?_, ?_⟩
  · have notEmpty : ¬ applied.isEmpty = true := by
      rw [List.isEmpty_iff]
      exact List.ne_nil_of_mem isApplied
    rw [Contact.telling, if_neg notEmpty, paired, List.map_map]
    exact List.mem_map_of_mem isService
  · intro entry isEntry
    obtain rfl := List.mem_singleton.mp isEntry
    refine List.mem_filter.mpr ⟨List.mem_map_of_mem (among isApplied), ?_⟩
    exact List.any_eq_true.mpr ⟨proposal, isApplied, beq_self_eq_true _⟩

/-- A commit applies the proposals that are due up to the first one whose target is not there.  If
there is none it answers all of them, and each service is handed them.  Otherwise it fails, no
service is told, and what was due before that stays applied; if this is nothing, the states are as
they were. -/
theorem commit_told_or_stopped (services : Services σ) (timeout : Nat)
    (proposals : List Proposal) (world : World σ) {between : World σ}
    {replies : List (Reply (List NodeId))}
    (asked : firstPhase services timeout proposals world = (replies, between))
    (calm : ∀ service ∈ services, ∀ batch, (service.2.prepare batch).Respects
      (fun old new => old.repository.graph.SameStates new.repository.graph) fun _ => True) :
    let due := world.repository.graph.standing.inTurn (candidates proposals replies)
    let done := between.repository.graph.attainable due
    let labelled := batches services world.repository proposals
    world.repository.graph.SameStates between.repository.graph ∧
    ∃ moved arrival, between.repository.graph.Moved done moved ∧
      (done = [] → world.repository.graph.SameStates moved) ∧
      arrival.Perm ((addressed services proposals).map Prod.fst) ∧
      (done = due →
        let final := settled services timeout labelled due moved between
        (commit services timeout proposals).apply world = (.ok due, final) ∧
        (commit (watchAll services) timeout proposals).apply (world.noting []) =
          (.ok due, final.noting (Contact.asking (addressed services proposals) labelled ++
            Contact.replying arrival replies ++ Contact.telling services labelled due)) ∧
        ∀ proposal ∈ due, ∀ service ∈ services, ∃ batch,
          .told service.1 batch ∈ Contact.telling services labelled due ∧
            world.repository.labelFor service.1 [proposal] ⊆ batch) ∧
      ∀ proposal rest, due = done ++ proposal :: rest →
        let final := withGraph between moved
        (commit services timeout proposals).apply world =
          (.error (.noState proposal.target), final) ∧
        (commit (watchAll services) timeout proposals).apply (world.noting []) =
          (.error (.noState proposal.target),
            final.noting (Contact.asking (addressed services proposals) labelled ++
              Contact.replying arrival replies)) := by
  intro due done labelled
  have same : world.repository.graph.SameStates between.repository.graph := by
    have kept := sameStates_firstPhase calm timeout proposals world
    rwa [asked] at kept
  obtain ⟨moved, run, moves⟩ :=
    exists_applyAll between.repository.graph (candidates proposals replies)
  obtain ⟨arrival, arrives, watchedRun⟩ := firstPhase_watchAll services timeout proposals world []
  have sameRepository : (world.noting ([] : List Contact)).repository = world.repository := rfl
  rw [same.standing] at run moves
  rw [asked, List.nil_append] at watchedRun
  refine ⟨same, moved, arrival, moves, fun nothing => ?_, arrives, fun complete => ?_,
    fun proposal rest cut => ?_⟩
  · rw [moves.unmoved nothing]
    exact same
  · rw [verdict_of_attainable complete] at run
    have unmoved (nothing : due = []) : moved = between.repository.graph :=
      moves.unmoved (complete.trans nothing)
    refine ⟨?_, ?_, fun proposal isDue service isService => ?_⟩
    · rw [commit_apply, asked, conclude_apply services timeout _ replies between run unmoved]
    · rw [commit_apply, watchedRun, ← settled_watchAll, sameRepository, batches_watchAll]
      exact conclude_apply (watchAll services) timeout _ replies _ run unmoved
    · have among : due ⊆ proposals := fun other member =>
        List.mem_of_mem_filter ((Standing.inTurn_sublist _ _).subset member)
      exact exists_told services world.repository among isDue isService
  · rw [verdict_of_rest cut] at run
    constructor
    · rw [commit_apply, asked, conclude_stopped services timeout _ replies between run]
    · rw [commit_apply, watchedRun, sameRepository, batches_watchAll]
      exact conclude_stopped (watchAll services) timeout _ replies _ run

/-- A service that accepts everything. -/
def lenient : Services Unit := [("lenient", approver 2 fun _ => true)]

theorem calm_lenient : ∀ service ∈ lenient, ∀ batch, (service.2.prepare batch).Respects
    (fun old new => old.repository.graph.SameStates new.repository.graph) fun _ => True := by
  intro service isService batch
  obtain rfl := List.mem_singleton.mp isService
  exact ⟨fun _ => ⟨rfl, rfl⟩, fun _ _ => ⟨rfl, rfl⟩, fun _ _ => trivial⟩

/-- The second task is to go to a state that is not there. -/
def astray : Proposal := ⟨⟨1⟩, some ⟨0⟩, ⟨9⟩, none⟩

/-- The first task is closed and the commit stops at the second one; the service was asked and is
not told. -/
theorem commit_told_or_stopped_astray :
    ∃ moved, moved.standing ⟨0⟩ = some (some ⟨1⟩) ∧ moved.standing ⟨1⟩ = some (some ⟨0⟩) ∧
      (commit lenient 9 [closing ⟨0⟩, astray]).apply openTasks =
        (.error (.noState ⟨9⟩), withGraph openTasks moved) ∧
      (commit (watchAll lenient) 9 [closing ⟨0⟩, astray]).apply (openTasks.noting []) =
        (.error (.noState ⟨9⟩), (withGraph openTasks moved).noting
          [.asked "lenient" [closing ⟨0⟩, astray],
            .replied "lenient" (.answered [⟨0⟩, ⟨1⟩])]) := by
  obtain ⟨-, moved, arrival, moves, -, arrives, -, stopped⟩ :=
    commit_told_or_stopped lenient 9 [closing ⟨0⟩, astray] openTasks rfl calm_lenient
  obtain rfl : arrival = ["lenient"] := List.perm_singleton.mp arrives
  obtain ⟨run, watchedRun⟩ := stopped astray [] (by decide)
  refine ⟨moved, ?_, ?_, run, watchedRun⟩
  · rw [moves.standing]
    decide
  · rw [moves.standing]
    decide

/-- The commit fails, and the first task is in another state than before. -/
theorem state_changed_by_failed_commit :
    let result := (commit lenient 9 [closing ⟨0⟩, astray]).apply openTasks
    (∀ service ∈ lenient, ∀ batch, (service.2.prepare batch).Respects
        (fun old new => old.repository.graph.SameStates new.repository.graph) fun _ => True) ∧
      result.1.toOption = none ∧
      openTasks.repository.graph.standing ⟨0⟩ = some (some ⟨0⟩) ∧
      result.2.repository.graph.standing ⟨0⟩ = some (some ⟨1⟩) ∧
      openTasks.repository.graph.nodesInState ⟨1⟩ = [] ∧
      result.2.repository.graph.nodesInState ⟨1⟩ = [⟨0⟩] :=
  ⟨calm_lenient, by decide, by decide, by decide, by decide,
    by decide⟩

end Commit

end LifecycleGraph
