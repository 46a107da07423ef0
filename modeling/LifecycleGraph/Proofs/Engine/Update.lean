import Mathlib.Data.List.Sort
import Mathlib.Logic.Function.Iterate
import LifecycleGraph.Proofs.Engine.Round
import LifecycleGraph.Proofs.Engine.Trace

/-!
# What updates unite

The first round of an update calls every service with the given nodes, and each later one with
what was reported in the round before: with nodes, as no round follows one that reports nothing.
The answer unites the reports of all rounds.  An update whose every round reports something has
no answer, and stops when as many rounds are done as are allowed.
-/

set_option autoImplicit false

namespace LifecycleGraph

/-! ## Reports -/

namespace Reply

theorem sorted_reported (replies : List (Reply (List NodeId))) : (reported replies).Sorted := by
  -- The answers are joined to what was reported before, which ascends.
  have before : (Ascending.empty : Ascending NodeId).Sorted := Ascending.sorted_empty
  rw [reported]
  generalize (Ascending.empty : Ascending NodeId) = set at before ⊢
  induction replies generalizing set with
  | nil => exact before
  | cons reply rest inductionHypothesis =>
      rw [List.foldl_cons]
      cases reply with
      | answered answer => exact inductionHypothesis _ (before.insertAll answer)
      | _ => exact inductionHypothesis _ before

/-- The order in which replies arrive does not matter to what they report. -/
theorem reported_perm {replies others : List (Reply (List NodeId))} (same : others.Perm replies) :
    reported others = reported replies := by
  have members (id : NodeId) :
      id ∈ (reported others).members ↔ id ∈ (reported replies).members := by
    simp only [mem_reported_iff, same.mem_iff]
  exact congrArg Ascending.mk
    ((sorted_reported others).eq_of_mem_iff (sorted_reported replies) members)

end Reply

namespace Engine

variable {σ : Type}

/-! ## The rounds of an update -/

/-- Where a round of updates begins: the nodes that services are asked about, and the world. -/
structure Stage (σ : Type) where
  asked : List NodeId
  world : World σ

/-- The replies of the services, and the world in which they leave things. -/
def answers (engine : Engine σ) (stage : Stage σ) : List (Reply (List NodeId)) × World σ :=
  Call.round engine.timeout (engine.services.map fun service => service.2.update stage.asked)
    stage.world

/-- The services are asked next about what was reported. -/
def follow (engine : Engine σ) (stage : Stage σ) : Stage σ :=
  ⟨(Reply.reported (engine.answers stage).1).members, (engine.answers stage).2⟩

/-- Where a round would begin if no round were the last one.  The rounds count from zero. -/
def stage (engine : Engine σ) (nodes : List NodeId) (round : Nat) : Stage σ :=
  engine.follow^[round] ⟨nodes, engine.world⟩

def replies (engine : Engine σ) (nodes : List NodeId) (round : Nat) :
    List (Reply (List NodeId)) :=
  (engine.answers (engine.stage nodes round)).1

def report (engine : Engine σ) (nodes : List NodeId) (round : Nat) : Ascending NodeId :=
  Reply.reported (engine.replies nodes round)

/-- The reports of the rounds before one, united. -/
def united (engine : Engine σ) (nodes : List NodeId) : Nat → Ascending NodeId
  | 0 => .empty
  | round + 1 => (engine.united nodes round).union (engine.report nodes round)

section Rounds

variable (engine : Engine σ) (nodes : List NodeId)

theorem stage_succ (round : Nat) :
    engine.stage nodes (round + 1) = engine.follow (engine.stage nodes round) :=
  Function.iterate_succ_apply' ..

theorem mem_united_iff (count : Nat) (id : NodeId) :
    id ∈ (engine.united nodes count).members ↔
      ∃ round < count, id ∈ (engine.report nodes round).members := by
  induction count with
  | zero => simp [united, Ascending.empty]
  | succ count inductionHypothesis =>
      rw [united, Ascending.union, Ascending.mem_insertAll, inductionHypothesis, or_comm]
      exact Nat.exists_lt_succ_right.symm

theorem sorted_united (count : Nat) : (engine.united nodes count).Sorted := by
  induction count with
  | zero => exact Ascending.sorted_empty
  | succ count inductionHypothesis => exact inductionHypothesis.insertAll _

/-- A round that reports nothing is the last one, and after another one the next follows. -/
theorem updateRounds_succ (round rest : Nat) (reported : Ascending NodeId) :
    updateRounds engine.services engine.timeout (rest + 1) (engine.stage nodes round).asked
        reported (engine.stage nodes round).world =
      if (engine.report nodes round).isEmpty then
        (some reported, (engine.stage nodes (round + 1)).world)
      else
        updateRounds engine.services engine.timeout rest (engine.stage nodes (round + 1)).asked
          (reported.union (engine.report nodes round)) (engine.stage nodes (round + 1)).world := by
  rw [stage_succ]
  rfl

variable {engine nodes}

/-- Rounds that report something come to the next stage, with their reports united. -/
theorem updateRounds_stage {count : Nat}
    (busy : ∀ round < count, (engine.report nodes round).members ≠ []) (rest : Nat) :
    updateRounds engine.services engine.timeout (count + rest) nodes .empty engine.world =
      updateRounds engine.services engine.timeout rest (engine.stage nodes count).asked
        (engine.united nodes count) (engine.stage nodes count).world := by
  induction count generalizing rest with
  | zero =>
      rw [Nat.zero_add]
      rfl
  | succ count inductionHypothesis =>
      have before := inductionHypothesis (fun round below => busy round (Nat.lt_succ_of_lt below))
        (rest + 1)
      have somebody : (engine.report nodes count).isEmpty ≠ true := fun nobody =>
        busy count (Nat.lt_succ_self count) (List.isEmpty_iff.mp nobody)
      rw [Nat.add_assoc, Nat.add_comm 1 rest, before, updateRounds_succ, if_neg somebody, united]

/-! ## How updates end -/

/-- How an update ends, and after how many rounds: the last one reports nothing, or there is
none left. -/
inductive Settles (engine : Engine σ) (nodes : List NodeId) :
    Nat → Except Fault (List NodeId) → Prop where
  | converged {last : Nat} {answer : List NodeId} :
      last < engine.maxRounds →
      (∀ round < last, (engine.report nodes round).members ≠ []) →
      (engine.report nodes last).members = [] →
      answer.Pairwise (· < ·) →
      (∀ id, id ∈ answer ↔ ∃ round < last + 1, id ∈ (engine.report nodes round).members) →
      Settles engine nodes (last + 1) (.ok answer)
  | usedUp :
      (∀ round < engine.maxRounds, (engine.report nodes round).members ≠ []) →
      Settles engine nodes engine.maxRounds (.error (.nonTermination .update engine.maxRounds))

theorem update_apply (nodes : List NodeId) (engine : Engine σ) :
    (update nodes).apply engine =
      match updateRounds engine.services engine.timeout engine.maxRounds nodes .empty
        engine.world with
      | (some reported, world) => (.ok reported.members, { engine with world })
      | (none, world) =>
          (.error (.nonTermination .update engine.maxRounds), { engine with world }) := by
  simp only [update, Change.apply_bind, Change.apply_get, Change.apply_set]
  rcases updateRounds engine.services engine.timeout engine.maxRounds nodes .empty engine.world
    with ⟨reported | reported, world⟩
  · rfl
  · rfl

/-- An update ends with the first round that reports nothing. -/
theorem update_apply_of_converged {last : Nat} (allowed : last < engine.maxRounds)
    (busy : ∀ round < last, (engine.report nodes round).members ≠ [])
    (silent : (engine.report nodes last).members = []) :
    (update nodes).apply engine =
      (.ok (engine.united nodes last).members,
        { engine with world := (engine.stage nodes (last + 1)).world }) := by
  obtain ⟨rest, enough⟩ := Nat.exists_eq_add_of_lt allowed
  have nobody : (engine.report nodes last).isEmpty = true := List.isEmpty_iff.mpr silent
  rw [update_apply, enough, Nat.add_assoc, updateRounds_stage busy, updateRounds_succ,
    if_pos nobody]

/-- An update whose every round reports something is given up. -/
theorem update_apply_of_usedUp
    (busy : ∀ round < engine.maxRounds, (engine.report nodes round).members ≠ []) :
    (update nodes).apply engine =
      (.error (.nonTermination .update engine.maxRounds),
        { engine with world := (engine.stage nodes engine.maxRounds).world }) := by
  have run := updateRounds_stage busy 0
  rw [Nat.add_zero] at run
  rw [update_apply, run]
  rfl

end Rounds

/-! ## What services are called with -/

/-- A contact of a service during an update. -/
inductive Visit where
  | called (service : String) (nodes : List NodeId)
  | replied (service : String) (reply : Reply (List NodeId))

namespace Visit

/-- A reply that arrives in time. -/
def ofReply (service : String) : Reply (List NodeId) → List Visit
  | .late => []
  | reply => [.replied service reply]

end Visit

/-- A service that does as another one, and takes note of being called for an update and
replying. -/
def attended (name : String) (service : Service (World σ)) :
    Service (World (σ × List Visit)) :=
  { service.quiet with
    update := fun nodes =>
      (service.update nodes).noting [.called name nodes] (Visit.ofReply name) }

/-- The engine with every service attended to. -/
def attend (engine : Engine σ) : Engine (σ × List Visit) :=
  { engine with
    world := engine.world.noting []
    services := engine.services.map fun service => (service.1, attended service.1 service.2) }

/-- The contacts of a round in which the replies arrive from the services in an order. -/
def visits (engine : Engine σ) (nodes : List NodeId) (round : Nat) (arrival : List String) :
    List Visit :=
  (engine.services.map fun service => .called service.1 (engine.stage nodes round).asked) ++
    (arrival.zip (engine.replies nodes round)).flatMap fun (service, reply) =>
      Visit.ofReply service reply

section Attended

variable (engine : Engine σ) (nodes : List NodeId)

/-- The services that are attended to reply alike and leave the same world, with the notes. -/
theorem answers_attend (round : Nat) (notes : List Visit) :
    ∃ arrival : List String, arrival.Perm (engine.services.map Prod.fst) ∧
      engine.attend.answers ⟨(engine.stage nodes round).asked,
          (engine.stage nodes round).world.noting notes⟩ =
        (engine.replies nodes round,
          (engine.stage nodes (round + 1)).world.noting
            (notes ++ engine.visits nodes round arrival)) := by
  obtain ⟨arrival, arrives, run⟩ := Call.round_noting
    (fun service : String × Service (World σ) =>
      service.2.update (engine.stage nodes round).asked)
    (fun service => [Visit.called service.1 (engine.stage nodes round).asked])
    (fun service => Visit.ofReply service.1) (fun _ => rfl) engine.timeout engine.services
    (engine.stage nodes round).world notes
  refine ⟨arrival.map Prod.fst, arrives.map Prod.fst, ?_⟩
  unfold answers attend
  rw [List.map_map]
  refine run.trans ?_
  rw [stage_succ, visits, List.zip_map_left, List.flatMap_map, ← List.map_eq_flatMap,
    List.append_assoc]
  rfl

/-- The stages of the attended engine are those of the engine, with the contacts of the
rounds before. -/
theorem exists_stage_attend :
    ∃ arrivals : Nat → List String,
      (∀ round, (arrivals round).Perm (engine.services.map Prod.fst)) ∧
      ∀ round, engine.attend.stage nodes round =
        ⟨(engine.stage nodes round).asked, (engine.stage nodes round).world.noting
          ((List.range round).flatMap fun earlier =>
            engine.visits nodes earlier (arrivals earlier))⟩ := by
  choose arrivalAfter arrives run using engine.answers_attend nodes
  -- The notes of a stage choose the arrival of its round.
  let notes (round : Nat) : List Visit := (engine.attend.stage nodes round).world.notes
  refine ⟨fun round => arrivalAfter round (notes round), fun round => arrives round _, ?_⟩
  intro round
  induction round with
  | zero => rfl
  | succ round inductionHypothesis =>
      have noted : notes round = (List.range round).flatMap fun earlier =>
          engine.visits nodes earlier (arrivalAfter earlier (notes earlier)) :=
        congrArg (fun stage => stage.world.notes) inductionHypothesis
      rw [stage_succ, inductionHypothesis, ← noted, follow, run, List.range_succ,
        List.flatMap_append, List.flatMap_singleton, ← noted, stage_succ]
      rfl

/-- The attended services report what the services report. -/
theorem report_attend (round : Nat) :
    engine.attend.report nodes round = engine.report nodes round := by
  obtain ⟨arrivals, -, stages⟩ := engine.exists_stage_attend nodes
  obtain ⟨arrival, -, run⟩ := engine.answers_attend nodes round
    ((List.range round).flatMap fun earlier => engine.visits nodes earlier (arrivals earlier))
  rw [report, replies, stages, run]
  rfl

theorem united_attend (count : Nat) :
    engine.attend.united nodes count = engine.united nodes count := by
  induction count with
  | zero => rfl
  | succ count inductionHypothesis => rw [united, inductionHypothesis, report_attend, united]

/-- An update ends in one of the two ways, and in the same when its services are attended
to. -/
theorem exists_settles :
    ∃ (rounds : Nat) (outcome : Except Fault (List NodeId)),
      engine.Settles nodes rounds outcome ∧
      (update nodes).apply engine =
        (outcome, { engine with world := (engine.stage nodes rounds).world }) ∧
      (update nodes).apply engine.attend =
        (outcome, { engine.attend with world := (engine.attend.stage nodes rounds).world }) := by
  have limits : engine.attend.maxRounds = engine.maxRounds := rfl
  by_cases converges : ∃ round < engine.maxRounds, (engine.report nodes round).members = []
  · obtain ⟨allowed, silent⟩ := Nat.find_spec converges
    have busy (round : Nat) (below : round < Nat.find converges) :
        (engine.report nodes round).members ≠ [] := fun silent =>
      Nat.find_min converges below ⟨Nat.lt_trans below allowed, silent⟩
    generalize Nat.find converges = last at allowed silent busy
    have watched : (update nodes).apply engine.attend = _ := update_apply_of_converged
      allowed (by simpa only [report_attend] using busy) (by rwa [report_attend])
    rw [united_attend] at watched
    refine ⟨last + 1, _, .converged allowed busy silent (sorted_united engine nodes last) ?_,
      update_apply_of_converged allowed busy silent, watched⟩
    intro id
    rw [mem_united_iff, Nat.exists_lt_succ_right, silent]
    simp
  · have busy (round : Nat) (below : round < engine.maxRounds) :
        (engine.report nodes round).members ≠ [] := fun silent =>
      converges ⟨round, below, silent⟩
    exact ⟨engine.maxRounds, _, .usedUp busy, update_apply_of_usedUp busy,
      update_apply_of_usedUp (by simpa only [report_attend, limits] using busy)⟩

end Attended

/-- Every service is called in the first round with the given nodes and in each later one with
the ascending union of what was answered in the round before, in whatever order the answers
arrive.  There is an answer just where one of the allowed rounds reports nothing; then no
further round is done, and the answer is the ascending union of all reports.  Else the rounds
are used up. -/
theorem update_unites (engine : Engine σ) (nodes : List NodeId) :
    (engine.stage nodes 0).asked = nodes ∧
      (∀ round,
        (engine.stage nodes (round + 1)).asked = (engine.report nodes round).members ∧
        (engine.report nodes round).members.Pairwise (· < ·) ∧
        (∀ id, id ∈ (engine.report nodes round).members ↔
          ∃ answer, .answered answer ∈ engine.replies nodes round ∧ id ∈ answer) ∧
        (∀ others, others.Perm (engine.replies nodes round) →
          Reply.reported others = engine.report nodes round) ∧
        (engine.replies nodes round).length = engine.services.length) ∧
      ((∃ answer, ((update nodes).apply engine).1 = .ok answer) ↔
        ∃ round < engine.maxRounds, (engine.report nodes round).members = []) ∧
      ∃ (rounds : Nat) (outcome : Except Fault (List NodeId)) (arrivals : Nat → List String),
        engine.Settles nodes rounds outcome ∧
        (update nodes).apply engine =
          (outcome, { engine with world := (engine.stage nodes rounds).world }) ∧
        (∀ round, (arrivals round).Perm (engine.services.map Prod.fst)) ∧
        (update nodes).apply engine.attend =
          (outcome, { engine.attend with
            world := (engine.stage nodes rounds).world.noting
              ((List.range rounds).flatMap fun round =>
                engine.visits nodes round (arrivals round)) }) := by
  obtain ⟨rounds, outcome, settles, run, attendedRun⟩ := engine.exists_settles nodes
  obtain ⟨arrivals, arrive, stages⟩ := engine.exists_stage_attend nodes
  refine ⟨rfl, fun round => ⟨?_, ?_, ?_, ?_, ?_⟩, ?_, rounds, outcome, arrivals, settles, run,
    arrive, ?_⟩
  · rw [stage_succ]
    rfl
  · exact Reply.sorted_reported _
  · exact Reply.mem_reported_iff _
  · exact fun others reordered => Reply.reported_perm reordered
  · rw [replies, answers, Call.length_round, List.length_map]
  · rw [run]
    cases settles with
    | converged allowed _ silent =>
        exact ⟨fun _ => ⟨_, allowed, silent⟩, fun _ => ⟨_, rfl⟩⟩
    | usedUp busy =>
        constructor
        · rintro ⟨answer, answered⟩
          cases answered
        · rintro ⟨round, below, silent⟩
          exact absurd silent (busy round below)
  · rw [attendedRun, stages]

/-- A service that reports the nodes after those it is called with, up to a last one. -/
def climber (delay last : Nat) : Service (World Unit) :=
  { Commit.approver delay fun _ => true with
    update := fun nodes world =>
      let following := nodes.map fun id => (⟨id.index + 1⟩ : NodeId)
      (⟨delay, fun later => (.answered (following.filter (·.index ≤ last)), later)⟩, world) }

/-- Two services, one of which is late. -/
def climbing (maxRounds : Nat) : Engine Unit where
  world := ⟨.empty, ()⟩
  services := [("late", climber 9 5), ("quick", climber 1 2)]
  maxRounds := maxRounds
  timeout := 5
  storage := none
  history := []
  runs := 0

example : ((update [⟨0⟩]).apply (climbing 3)).1 = .ok [⟨1⟩, ⟨2⟩] := rfl

example : ((update [⟨0⟩]).apply (climbing 2)).1 = .error (.nonTermination .update 2) := rfl

end Engine

end LifecycleGraph
