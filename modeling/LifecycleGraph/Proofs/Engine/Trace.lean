import LifecycleGraph.Proofs.Engine.Conclusion
import LifecycleGraph.Proofs.Engine.Lasting

/-!
# What a propagation did

A propagation goes in rounds.  In each the services are asked about the nodes to look at, and
the state changes of these and of the nodes that are reported are committed.  The answer lists
the nodes that were reported, without those that were given, and those that were moved.  The
given nodes are saved once, after the last round; nothing is saved when the rounds are used up.
-/

set_option autoImplicit false

namespace LifecycleGraph

theorem Reply.mem_reported_iff (replies : List (Reply (List NodeId))) (id : NodeId) :
    id ∈ (Reply.reported replies).members ↔
      ∃ answer, .answered answer ∈ replies ∧ id ∈ answer := by
  -- The answers are joined to what was reported before.
  have before : (∃ answer, Reply.answered answer ∈ replies ∧ id ∈ answer) ↔
      (∃ answer, Reply.answered answer ∈ replies ∧ id ∈ answer) ∨
        id ∈ (Ascending.empty : Ascending NodeId).members := by
    simp [Ascending.empty]
  rw [before, reported]
  clear before
  generalize (Ascending.empty : Ascending NodeId) = set
  induction replies generalizing set with
  | nil => simp
  | cons reply rest inductionHypothesis =>
      rw [List.foldl_cons]
      refine (inductionHypothesis _).trans ?_
      cases reply with
      | answered answer =>
          simp only [Ascending.mem_insertAll, List.mem_cons, Reply.answered.injEq, or_and_right,
            exists_or, exists_eq_left]
          exact or_left_comm.trans or_assoc.symm
      | _ => simp

namespace Engine

variable {σ : Type}

/-! ## Rounds -/

/-- A round of a propagation: the nodes that the services were asked about, their replies, and
the state changes that were committed. -/
structure Round where
  asked : List NodeId
  replies : List (Reply (List NodeId))
  applied : List Proposal

namespace Round

/-- A successful call of the round reported the node. -/
def Reports (round : Round) (id : NodeId) : Prop :=
  ∃ answer, .answered answer ∈ round.replies ∧ id ∈ answer

/-- The round moved the node. -/
def Moves (round : Round) (id : NodeId) : Prop :=
  ∃ proposal ∈ round.applied, proposal.node = id

def affected (round : Round) : Ascending NodeId := Reply.reported round.replies

/-- A successful call of some round reported the node. -/
def ReportedIn (rounds : List Round) (id : NodeId) : Prop := ∃ round ∈ rounds, round.Reports id

/-- Some round moved the node. -/
def MovedIn (rounds : List Round) (id : NodeId) : Prop := ∃ round ∈ rounds, round.Moves id

section

variable (rounds more : List Round) (round : Round) (id : NodeId)

theorem reportedIn_append :
    ReportedIn (rounds ++ more) id ↔ ReportedIn rounds id ∨ ReportedIn more id := by
  simp only [ReportedIn, List.mem_append, or_and_right, exists_or]

theorem reportedIn_singleton : ReportedIn [round] id ↔ round.Reports id := by
  simp only [ReportedIn, List.mem_singleton, exists_eq_left]

theorem movedIn_append : MovedIn (rounds ++ more) id ↔ MovedIn rounds id ∨ MovedIn more id := by
  simp only [MovedIn, List.mem_append, or_and_right, exists_or]

/-- The nodes that rounds moved are those of the records of their state changes. -/
theorem movedIn_iff_exists_record (run : Nat) :
    MovedIn rounds id ↔
      ∃ record ∈ (rounds.flatMap Round.applied).map (Proposal.record run), record.node = id := by
  simp only [MovedIn, Moves, List.mem_map, List.mem_flatMap, exists_exists_and_eq_and]
  constructor
  · rintro ⟨round, isRound, proposal, isApplied, same⟩
    exact ⟨proposal, ⟨round, isRound, isApplied⟩, same⟩
  · rintro ⟨proposal, ⟨round, isRound, isApplied⟩, same⟩
    exact ⟨round, isRound, proposal, isApplied, same⟩

theorem movedIn_singleton : MovedIn [round] id ↔ round.Moves id := by
  simp only [MovedIn, List.mem_singleton, exists_eq_left]

end

end Round

/-- What a round leaves to look at: the nodes that were reported for the first time and those
that were moved. -/
def Spread.next (spread : Spread) (round : Round) : Ascending NodeId :=
  (round.affected.difference spread.seen).insertAll (round.applied.map Proposal.node)

def Spread.after (spread : Spread) (round : Round) : Spread :=
  ⟨spread.next round, spread.seen.union round.affected, spread.touched.union (spread.next round)⟩

/-- The replies of the services that are asked about the nodes to look at, and the world in
which they leave things. -/
def consult (engine : Engine σ) (spread : Spread) : List (Reply (List NodeId)) × World σ :=
  Call.round engine.timeout
    (engine.services.map fun service => service.2.modified spread.pending.members) engine.world

/-- What is proposed then for the nodes to look at and for those that were reported. -/
def proposed (engine : Engine σ) (spread : Spread) : List Proposal :=
  let (replies, between) := engine.consult spread
  (between.repository.proposals ((spread.pending.union (Reply.reported replies)).members.map
    fun id => (id, none)) .empty).1

/-- What is committed of this. -/
def committed (engine : Engine σ) (spread : Spread) : Except Fault (List Proposal) × World σ :=
  (Commit.commit engine.services engine.timeout (engine.proposed spread)).apply
    (engine.consult spread).2

/-- The second engine is the first one after a round. -/
structure Takes (run : Nat) (spread : Spread) (old : Engine σ) (round : Round) (new : Engine σ) :
    Prop where
  asked : round.asked = spread.pending.members
  replies : round.replies = (old.consult spread).1
  committed : old.committed spread = (.ok round.applied, new.world)
  recorded : new = { old with
    world := new.world
    history := old.history ++ round.applied.map (Proposal.record run) }

/-- Rounds one after the other, each of which leaves something to look at. -/
inductive Runs (run : Nat) : Spread → Engine σ → List Round → Spread → Engine σ → Prop where
  | none (spread : Spread) (engine : Engine σ) : Runs run spread engine [] spread engine
  | round {spread last : Spread} {old between new : Engine σ} {round : Round}
      {rounds : List Round} : Takes run spread old round between →
      (spread.next round).isEmpty = false → Runs run (spread.after round) between rounds last new →
      Runs run spread old (round :: rounds) last new

/-- How rounds end: they are used up, a round leaves nothing to look at, or a commit is
stopped. -/
inductive Ending (run limit : Nat) (spread : Spread) (engine : Engine σ) :
    List Round → Except Fault (Option (Ascending NodeId)) → Engine σ → Prop where
  | usedUp {rounds : List Round} {last : Spread} {settled : Engine σ} :
      Runs run spread engine rounds last settled → rounds.length = limit →
      Ending run limit spread engine rounds (.ok none) settled
  | converged {rounds : List Round} {last : Spread} {between settled : Engine σ} {round : Round} :
      Runs run spread engine rounds last between → rounds.length < limit →
      Takes run last between round settled → (last.next round).isEmpty = true →
      Ending run limit spread engine (rounds ++ [round]) (.ok (some last.touched)) settled
  | stopped {rounds : List Round} {last : Spread} {between : Engine σ} {fault : Fault}
      {world : World σ} :
      Runs run spread engine rounds last between → rounds.length < limit →
      between.committed last = (.error fault, world) →
      Ending run limit spread engine rounds (.error fault) { between with world }

section Rounds

variable {run limit : Nat} {spread : Spread} {old between engine settled : Engine σ} {round : Round}
  {rounds : List Round} {answer : Except Fault (Option (Ascending NodeId))}

/-- A round that leaves something to look at may come before the others. -/
theorem Ending.cons (taken : Takes run spread old round between)
    (somebody : (spread.next round).isEmpty = false)
    (ending : Ending run limit (spread.after round) between rounds answer settled) :
    Ending run (limit + 1) spread old (round :: rounds) answer settled := by
  cases ending with
  | usedUp runs used => exact .usedUp (.round taken somebody runs) (by simp [used])
  | converged runs left last nobody =>
      exact .converged (.round taken somebody runs) (by simpa using left) last nobody
  | stopped runs left stops =>
      exact .stopped (.round taken somebody runs) (by simpa using left) stops

/-- A round commits what is proposed when the services have replied, and unless it leaves
nothing to look at the next round follows. -/
theorem modifiedRounds_succ (run rounds : Nat) (spread : Spread) (engine : Engine σ) :
    (modifiedRounds run (rounds + 1) spread).apply engine =
      match engine.committed spread with
      | (.error fault, world) => (.error fault, { engine with world })
      | (.ok applied, world) =>
          let round : Round := ⟨spread.pending.members, (engine.consult spread).1, applied⟩
          let changed := { engine with
            world
            history := engine.history ++ applied.map (Proposal.record run) }
          if (spread.next round).isEmpty then (.ok (some spread.touched), changed)
          else (modifiedRounds run rounds (spread.after round)).apply changed := by
  rw [modifiedRounds]
  simp only [Change.apply_bind, Change.apply_get, Change.apply_set, transition_apply, callAll]
  rcases outcome : engine.committed spread with ⟨fault | applied, world⟩
  · simp only [committed, proposed, consult] at outcome
    simp only [outcome]
  · simp only [committed, proposed, consult] at outcome
    simp only [outcome]
    let round : Round := ⟨spread.pending.members, (engine.consult spread).1, applied⟩
    change (if (spread.next round).isEmpty then pure (some spread.touched)
      else modifiedRounds run rounds (spread.after round)).apply _ = _
    split
    · rfl
    · rfl

/-- The rounds end in one of the three ways. -/
theorem exists_ending (run limit : Nat) (spread : Spread) (engine : Engine σ) :
    ∃ rounds, Ending run limit spread engine rounds
      ((modifiedRounds run limit spread).apply engine).1
      ((modifiedRounds run limit spread).apply engine).2 := by
  induction limit generalizing spread engine with
  | zero => exact ⟨[], .usedUp (.none spread engine) rfl⟩
  | succ limit inductionHypothesis =>
      rw [modifiedRounds_succ]
      rcases outcome : engine.committed spread with ⟨fault | applied, world⟩
      · exact ⟨[], .stopped (.none spread engine) (Nat.succ_pos limit) outcome⟩
      · let round : Round := ⟨spread.pending.members, (engine.consult spread).1, applied⟩
        let changed : Engine σ := { engine with
          world
          history := engine.history ++ applied.map (Proposal.record run) }
        have taken : Takes run spread engine round changed := ⟨rfl, rfl, outcome, rfl⟩
        simp only
        split
        · rename_i nobody
          exact ⟨[round], .converged (.none spread engine) (Nat.succ_pos limit) taken nobody⟩
        · rename_i somebody
          obtain ⟨rounds, ending⟩ := inductionHypothesis (spread.after round) changed
          exact ⟨round :: rounds, ending.cons taken (by simpa using somebody)⟩

end Rounds

/-! ## What the rounds come to -/

/-- What rounds come to: the nodes that were seen, those that were touched, and the history
of the state changes. -/
structure Accounts (run : Nat) (spread : Spread) (old : Engine σ) (rounds : List Round)
    (last : Spread) (new : Engine σ) : Prop where
  seen : ∀ id, id ∈ last.seen.members ↔ Round.ReportedIn rounds id ∨ id ∈ spread.seen.members
  touched : ∀ id, id ∈ last.touched.members ↔
    (Round.ReportedIn rounds id ∧ id ∉ spread.seen.members ∨ Round.MovedIn rounds id) ∨
      id ∈ spread.touched.members
  sorted : spread.touched.Sorted → last.touched.Sorted
  recorded : new = { old with
    world := new.world
    history := old.history ++ (rounds.flatMap Round.applied).map (Proposal.record run) }

section Accounts

variable {run limit : Nat} {spread middle last : Spread} {old between new : Engine σ}
  {round : Round} {rounds more : List Round}

theorem Accounts.refl (run : Nat) (spread : Spread) (engine : Engine σ) :
    Accounts run spread engine [] spread engine := by
  refine ⟨?_, ?_, id, ?_⟩ <;> simp [Round.ReportedIn, Round.MovedIn]

theorem Accounts.trans (one : Accounts run spread old rounds middle between)
    (two : Accounts run middle between more last new) :
    Accounts run spread old (rounds ++ more) last new where
  seen id := by
    rw [two.seen, one.seen, Round.reportedIn_append]
    tauto
  touched id := by
    rw [two.touched, one.touched, one.seen, Round.reportedIn_append, Round.movedIn_append]
    tauto
  sorted := two.sorted ∘ one.sorted
  recorded := by
    rw [two.recorded, one.recorded]
    simp

theorem Spread.mem_next_iff (spread : Spread) (round : Round) (id : NodeId) :
    id ∈ (spread.next round).members ↔
      round.Moves id ∨ round.Reports id ∧ id ∉ spread.seen.members := by
  rw [next, Ascending.mem_insertAll, Ascending.mem_difference, Round.affected,
    Reply.mem_reported_iff, List.mem_map]
  rfl

theorem Takes.accounts (taken : Takes run spread old round new) :
    Accounts run spread old [round] (spread.after round) new where
  seen id := by
    simp only [Spread.after, Ascending.union, Ascending.mem_insertAll, Round.affected,
      Reply.mem_reported_iff, Round.reportedIn_singleton]
    rfl
  touched id := by
    simp only [Spread.after, Ascending.union, Ascending.mem_insertAll, Spread.mem_next_iff,
      Round.reportedIn_singleton, Round.movedIn_singleton]
    rw [or_comm (a := round.Moves id)]
  sorted sorted := sorted.insertAll _
  recorded := by
    rw [List.flatMap_singleton]
    exact taken.recorded

theorem Runs.accounts (runs : Runs run spread old rounds last new) :
    Accounts run spread old rounds last new := by
  induction runs with
  | none spread engine => exact .refl run spread engine
  | round taken _ _ inductionHypothesis => exact taken.accounts.trans inductionHypothesis

/-- A round that leaves nothing to look at touches nothing more. -/
theorem Spread.touched_after (nobody : (spread.next round).isEmpty = true) :
    (spread.after round).touched = spread.touched := by
  have noMembers : (spread.next round).members = [] := List.isEmpty_iff.mp nobody
  change spread.touched.insertAll (spread.next round).members = spread.touched
  rw [noMembers]
  rfl

variable {engine settled : Engine σ} {answer : Except Fault (Option (Ascending NodeId))}

/-- However the rounds end, nothing but the world and the history is different. -/
theorem Ending.recorded (ending : Ending run limit spread engine rounds answer settled) :
    settled = { engine with
      world := settled.world
      history := engine.history ++ (rounds.flatMap Round.applied).map (Proposal.record run) } := by
  cases ending with
  | usedUp runs => exact runs.accounts.recorded
  | converged runs _ taken => exact (runs.accounts.trans taken.accounts).recorded
  | stopped runs => rw [runs.accounts.recorded]

/-- Rounds that leave nothing to look at answer with what they touched. -/
theorem Ending.touched {touched : Ascending NodeId}
    (ending : Ending run limit spread engine rounds (.ok (some touched)) settled) :
    (spread.touched.Sorted → touched.Sorted) ∧
      ∀ id, id ∈ touched.members ↔
        (Round.ReportedIn rounds id ∧ id ∉ spread.seen.members ∨ Round.MovedIn rounds id) ∨
          id ∈ spread.touched.members := by
  cases ending with
  | converged runs _ taken nobody =>
      have accounts := runs.accounts.trans taken.accounts
      rw [← Spread.touched_after nobody]
      exact ⟨accounts.sorted, accounts.touched⟩

end Accounts

/-! ## Saving -/

/-- The saved node is what is dumped of the node. -/
def Saves (repository : Repository) (id : NodeId) (saved : SavedNode) : Prop :=
  ∃ node content, repository.graph.node? id = some node ∧ repository.dumpNode id = .ok content ∧
    saved = ⟨repository.graph.typeName node.type, node.name, content⟩

/-- The nodes that there are are saved in their order. -/
theorem savedNodes_eq_ok_iff (repository : Repository) (nodes : List NodeId)
    (saved : List SavedNode) :
    savedNodes repository nodes = .ok saved ↔
      List.Forall₂ (Saves repository)
        (nodes.filter fun id => (repository.graph.node? id).isSome) saved := by
  induction nodes generalizing saved with
  | nil => simp [savedNodes, eq_comm]
  | cons id rest inductionHypothesis =>
      rw [savedNodes, List.filter_cons]
      cases found : repository.graph.node? id with
      | none => exact inductionHypothesis saved
      | some node =>
          simp only [Option.isSome_some, if_true, List.forall₂_cons_left_iff]
          constructor
          · intro answered
            obtain ⟨content, dumped, answered⟩ := exists_of_bind_eq_ok answered
            obtain ⟨others, areSaved, same⟩ := exists_of_bind_eq_ok answered
            cases same
            exact ⟨_, others, ⟨node, content, found, dumped, rfl⟩,
              (inductionHypothesis others).mp areSaved, rfl⟩
          · rintro ⟨first, others, ⟨there, content, isThere, dumped, rfl⟩, areSaved, rfl⟩
            rw [found] at isThere
            cases isThere
            rw [dumped, ok_bind, (inductionHypothesis others).mpr areSaved, ok_bind]

theorem save_apply (nodes : List NodeId) (engine : Engine σ) :
    (save nodes).apply engine =
      match engine.storage with
      | none => (.ok (), engine)
      | some storage =>
          match savedNodes engine.world.repository nodes with
          | .error fault => (.error fault, engine)
          | .ok saved =>
              match storage.save saved with
              | .ok kept => (.ok (), { engine with storage := some kept })
              | .error reason => (.error (.service "store" reason), engine) := by
  rw [save, Change.apply_bind, Change.apply_get]
  simp only
  cases engine.storage with
  | none => rfl
  | some storage =>
      simp only [Change.apply_bind, Change.apply_ask]
      cases savedNodes engine.world.repository nodes with
      | error fault => rfl
      | ok saved =>
          simp only
          cases storage.save saved <;> rfl

/-- With a store one save is done, of what is dumped of the nodes. -/
theorem of_save_ok {nodes : List NodeId} {engine final : Engine σ}
    (saved : (save nodes).apply engine = (.ok (), final)) :
    final = { engine with storage := final.storage } ∧
      (engine.storage = none → final.storage = none) ∧
      ∀ storage, engine.storage = some storage → ∃ dumps kept,
        List.Forall₂ (Saves engine.world.repository)
          (nodes.filter fun id => (engine.graph.node? id).isSome) dumps ∧
        storage.save dumps = .ok kept ∧ final.storage = some kept := by
  rw [save_apply] at saved
  cases hasStorage : engine.storage with
  | none =>
      rw [hasStorage] at saved
      cases saved
      exact ⟨rfl, fun _ => hasStorage, fun _ isSome => by cases isSome⟩
  | some storage =>
      rw [hasStorage] at saved
      simp only at saved
      cases dumped : savedNodes engine.world.repository nodes with
      | error fault =>
          rw [dumped] at saved
          cases saved
      | ok dumps =>
          rw [dumped] at saved
          simp only at saved
          cases kept : storage.save dumps with
          | error reason =>
              rw [kept] at saved
              cases saved
          | ok storage =>
              rw [kept] at saved
              cases saved
              refine ⟨rfl, fun isNone => (by cases isNone), fun _ isSome => ?_⟩
              cases isSome
              exact ⟨dumps, storage, (savedNodes_eq_ok_iff _ nodes dumps).mp dumped, kept, rfl⟩

/-- Where saving is stopped nothing is different, and the reason is conclusive if every
converter is. -/
theorem of_save_error {nodes : List NodeId} {engine final : Engine σ} {fault : Fault}
    (stopped : (save nodes).apply engine = (.error fault, final)) :
    final = engine ∧ (engine.world.repository.converters.Conclusive →
      Conclusive (.error fault : Except Fault Unit)) := by
  rw [save_apply] at stopped
  split at stopped
  · cases stopped
  · split at stopped
    · rename_i dumped
      cases stopped
      refine ⟨rfl, fun conclusive => ?_⟩
      have saved := Repository.conclusive_savedNodes conclusive nodes
      rw [dumped] at saved
      exact saved.error
    · split at stopped
      · cases stopped
      · cases stopped
        exact ⟨rfl, fun _ _ _ same => by cases same⟩

/-! ## Propagations -/

def Spread.ofNodes (nodes : List NodeId) : Spread := ⟨.ofList nodes, .ofList nodes, .empty⟩

theorem propagate_apply (nodes : List NodeId) (engine : Engine σ) :
    (propagate nodes).apply engine =
      match (modifiedRounds engine.runs engine.maxRounds (.ofNodes nodes)).apply
          { engine with runs := engine.runs + 1 } with
      | (.error fault, settled) => (.error fault, settled)
      | (.ok none, settled) => (.error (.nonTermination .modified engine.maxRounds), settled)
      | (.ok (some touched), settled) =>
          match (save nodes).apply settled with
          | (.ok _, final) => (.ok touched.members, final)
          | (.error fault, final) => (.error fault, final) := by
  simp only [propagate, startRun, Change.apply_bind, Change.apply_get, Change.apply_set,
    Change.apply_pure, Spread.ofNodes]
  rcases (modifiedRounds engine.runs engine.maxRounds
    ⟨.ofList nodes, .ofList nodes, .empty⟩).apply { engine with runs := engine.runs + 1 } with
      ⟨fault | touched, settled⟩
  · rfl
  · cases touched with
    | none => rfl
    | some touched =>
        simp only [Change.apply_bind]
        rcases (save nodes).apply settled with ⟨fault | _, final⟩ <;> rfl

section Propagation

variable {engine final : Engine σ} {nodes : List NodeId}

/-- A propagation that answers comes to rounds that leave nothing to look at, and saves. -/
theorem of_propagate_ok {touched : List NodeId}
    (run : (propagate nodes).apply engine = (.ok touched, final)) :
    ∃ rounds settled,
      Ending engine.runs engine.maxRounds (.ofNodes nodes) { engine with runs := engine.runs + 1 }
        rounds (.ok (some ⟨touched⟩)) settled ∧
      (save nodes).apply settled = (.ok (), final) := by
  rw [propagate_apply] at run
  obtain ⟨rounds, ending⟩ := exists_ending engine.runs engine.maxRounds (.ofNodes nodes)
    { engine with runs := engine.runs + 1 }
  rcases outcome : (modifiedRounds engine.runs engine.maxRounds (.ofNodes nodes)).apply
    { engine with runs := engine.runs + 1 } with ⟨fault | answer, settled⟩
  · rw [outcome] at run
    cases run
  · simp only [outcome] at run ending
    cases answer with
    | none => cases run
    | some set =>
        simp only at run
        rcases saved : (save nodes).apply settled with ⟨fault | _, changed⟩
        · rw [saved] at run
          cases run
        · rw [saved] at run
          cases run
          exact ⟨rounds, settled, ending, saved⟩

/-- A propagation that fails has used its rounds up, or its fault is conclusive if every
converter is. -/
theorem of_propagate_error {fault : Fault}
    (run : (propagate nodes).apply engine = (.error fault, final)) :
    ∃ rounds answer,
      Ending engine.runs engine.maxRounds (.ofNodes nodes) { engine with runs := engine.runs + 1 }
        rounds answer final ∧
      (answer = .ok none ∧ rounds.length = engine.maxRounds ∧
          fault = .nonTermination .modified engine.maxRounds ∨
        (final.world.repository.converters.Conclusive →
          Conclusive (.error fault : Except Fault Unit))) := by
  rw [propagate_apply] at run
  obtain ⟨rounds, ending⟩ := exists_ending engine.runs engine.maxRounds (.ofNodes nodes)
    { engine with runs := engine.runs + 1 }
  rcases outcome : (modifiedRounds engine.runs engine.maxRounds (.ofNodes nodes)).apply
    { engine with runs := engine.runs + 1 } with ⟨stopped | answer, settled⟩
  · simp only [outcome] at run ending
    cases run
    refine ⟨rounds, _, ending, .inr fun _ => ?_⟩
    cases ending with
    | @stopped rounds last between _ _ _ _ stops =>
        have committed := Commit.conclusive_commit between.services between.timeout
          (between.proposed last) (between.consult last).2
        rw [← Engine.committed, stops] at committed
        exact committed.error
  · simp only [outcome] at run ending
    cases answer with
    | none =>
        cases run
        refine ⟨rounds, _, ending, .inl ⟨rfl, ?_, rfl⟩⟩
        cases ending with
        | usedUp _ used => exact used
    | some set =>
        simp only at run
        rcases saved : (save nodes).apply settled with ⟨reason | _, changed⟩
        · rw [saved] at run
          cases run
          obtain ⟨rfl, conclusive⟩ := of_save_error saved
          exact ⟨rounds, _, ending, .inr conclusive⟩
        · rw [saved] at run
          cases run

/-- A propagation that comes to an end answers, in ascending order, with the nodes that services
reported but for those that were given, and with the nodes that it moved according to the
history; the given nodes that there are at the end are saved once, as they are then.  Where it
does not come to an end, as many rounds as are allowed left something to look at.  Nothing is
saved then, nor where it fails otherwise. -/
theorem propagate_accounts {outcome : Except Fault (List NodeId)}
    (run : (propagate nodes).apply engine = (outcome, final)) :
    ∃ rounds answer settled records,
      Ending engine.runs engine.maxRounds (.ofNodes nodes) { engine with runs := engine.runs + 1 }
        rounds answer settled ∧
      final = { settled with storage := final.storage } ∧
      final.history = engine.history ++ records ∧
      records = (rounds.flatMap Round.applied).map (Proposal.record engine.runs) ∧
      (∀ touched, outcome = .ok touched →
        answer = .ok (some ⟨touched⟩) ∧
        touched.Pairwise (· < ·) ∧
        (∀ id, id ∈ touched ↔
          Round.ReportedIn rounds id ∧ id ∉ nodes ∨ ∃ record ∈ records, record.node = id) ∧
        (engine.storage = none → final.storage = none) ∧
        ∀ storage, engine.storage = some storage → ∃ dumps kept,
          List.Forall₂ (Saves final.world.repository)
            (nodes.filter fun id => (final.graph.node? id).isSome) dumps ∧
          storage.save dumps = .ok kept ∧ final.storage = some kept) ∧
      (∀ fault, outcome = .error fault → final.storage = engine.storage) ∧
      ∀ phase limit, outcome = .error (.nonTermination phase limit) →
        final.world.repository.converters.Conclusive →
        answer = .ok none ∧ rounds.length = engine.maxRounds ∧
          phase = .modified ∧ limit = engine.maxRounds := by
  cases outcome with
  | error fault =>
      obtain ⟨rounds, answer, ending, why⟩ := of_propagate_error run
      have recorded := ending.recorded
      refine ⟨rounds, answer, final, _, ending, rfl, ?_, rfl, ?_, ?_, ?_⟩
      · rw [recorded]
      · exact fun _ isOk => by cases isOk
      · intro _ _
        rw [recorded]
      · intro phase limit same conclusive
        cases same
        rcases why with ⟨isNone, used, same⟩ | isConclusive
        · cases same
          exact ⟨isNone, used, rfl, rfl⟩
        · exact absurd rfl (isConclusive conclusive phase limit)
  | ok touched =>
      obtain ⟨rounds, settled, ending, saved⟩ := of_propagate_ok run
      obtain ⟨same, unsaved, isSaved⟩ := of_save_ok saved
      have recorded := ending.recorded
      have storage : settled.storage = engine.storage := by rw [recorded]
      have history : final.history = engine.history ++
          (rounds.flatMap Round.applied).map (Proposal.record engine.runs) := by
        rw [same, recorded]
      refine ⟨rounds, _, settled, _, ending, same, history, rfl, ?_, ?_, ?_⟩
      · intro _ isOk
        cases isOk
        obtain ⟨sorted, members⟩ := ending.touched
        have world : final.world = settled.world := by rw [same]
        rw [storage] at unsaved isSaved
        refine ⟨rfl, sorted Ascending.sorted_empty, fun id => ?_, unsaved, ?_⟩
        · have accounted := members id
          rw [Spread.ofNodes, Ascending.mem_ofList,
            Round.movedIn_iff_exists_record rounds id engine.runs] at accounted
          exact accounted.trans (or_iff_left List.not_mem_nil)
        · rw [Engine.graph, world]
          exact isSaved
      · exact fun _ isError => by cases isError
      · exact fun _ _ isError => by cases isError

/-- A service that reports some nodes whenever it is asked. -/
def reporter (reported : List NodeId) : Service (World σ) where
  initialise world := (.ok (), world)
  close world := (.ok (), world)
  update _ world := (⟨0, fun later => (.answered [], later)⟩, world)
  modified _ world := (⟨0, fun later => (.answered reported, later)⟩, world)
  prepare batch world := (⟨0, fun later => (.answered (batch.map Proposal.node), later)⟩, world)
  commit _ world := (⟨0, fun later => (.answered (), later)⟩, world)

/-- An engine that saves, with a service that reports the second task all the time. -/
def reporting (repository : Repository) (maxRounds : Nat) : Engine Unit :=
  ⟨⟨repository, ()⟩, [("scout", reporter [⟨1⟩])], maxRounds, 9, some (.memory .empty), [], 0⟩

/-- The second world has the converters of the first one. -/
def KeepsConverters (old new : World σ) : Prop :=
  new.repository.converters = old.repository.converters

theorem respects_reporter {step : World σ → World σ → Prop} (refl : ∀ world, step world world)
    (reported : List NodeId) : (reporter reported : Service (World σ)).Respects step where
  modified _ := ⟨refl, fun _ => refl, fun _ _ => trivial⟩
  prepare _ := ⟨refl, fun _ => refl, fun _ _ => trivial⟩
  commit _ := ⟨refl, fun _ => refl, fun _ _ => trivial⟩

set_option maxRecDepth 8000 in
theorem converters_newTasks : newTasks.converters = .builtIn := by rfl

/-- The service keeps the converters, which are conclusive from the start. -/
theorem conclusive_reporting (maxRounds : Nat) (nodes : List NodeId) :
    let final := ((propagate nodes).apply (reporting newTasks maxRounds)).2
    final.world.repository.converters.Conclusive := by
  intro final
  have refl (world : World Unit) : KeepsConverters world world := rfl
  have lasting : Lasting fun engine : Engine Unit =>
      (∀ service ∈ engine.services, service.2.Respects KeepsConverters) ∧
        KeepsConverters (reporting newTasks maxRounds).world engine.world :=
    lasting_steps refl (fun _ _ _ one two => Eq.trans two one) (fun _ _ => rfl) _
  have respects (service : String × Service (World Unit))
      (member : service ∈ (reporting newTasks maxRounds).services) :
      service.2.Respects KeepsConverters := by
    rw [List.mem_singleton.mp member]
    exact respects_reporter refl _
  obtain ⟨-, same⟩ := (keeps_propagate lasting nodes _ ⟨respects, rfl⟩).state_apply
  have start : (reporting newTasks maxRounds).world.repository.converters = .builtIn :=
    converters_newTasks
  have kept : final.world.repository.converters = .builtIn := same.trans start
  rw [kept]
  exact Converters.conclusive_builtIn

/-- The two tasks are reported or moved, and the given one is saved; with two rounds the
propagation does not come to an end, and saves nothing. -/
theorem propagate_accounts_newTasks :
    (∃ final dumps, (propagate [⟨0⟩]).apply (reporting newTasks 9) = (.ok [⟨0⟩, ⟨1⟩], final) ∧
      List.Forall₂ (Saves final.world.repository) [⟨0⟩] dumps ∧
      final.storage = some (.memory (MemoryStore.empty.save dumps))) ∧
    ∃ final rounds settled,
      (propagate [⟨0⟩]).apply (reporting newTasks 2) =
        (.error (.nonTermination .modified 2), final) ∧
      Ending 0 2 (.ofNodes [⟨0⟩]) { reporting newTasks 2 with runs := 1 } rounds (.ok none)
        settled ∧
      rounds.length = 2 ∧ final.storage = some (.memory .empty) := by
  constructor
  · have outcome :
        let run := (propagate [⟨0⟩]).apply (reporting newTasks 9)
        run.1.toOption = some [⟨0⟩, ⟨1⟩] ∧ (run.2.graph.node? ⟨0⟩).isSome = true := by
      decide +kernel
    cases run : (propagate [⟨0⟩]).apply (reporting newTasks 9) with
    | mk answer final =>
        rw [run] at outcome
        obtain ⟨answered, present⟩ := outcome
        cases answer with
        | error fault => cases answered
        | ok touched =>
            cases answered
            obtain ⟨rounds, answer, settled, records, -, -, -, -, ends, -⟩ :=
              propagate_accounts run
            obtain ⟨-, -, -, -, saves⟩ := ends _ rfl
            obtain ⟨dumps, kept, areDumps, saved, stored⟩ := saves _ rfl
            simp only [List.filter_cons, present, if_true, List.filter_nil] at areDumps
            cases saved
            exact ⟨final, dumps, rfl, areDumps, stored⟩
  · have outcome : (match ((propagate [⟨0⟩]).apply (reporting newTasks 2)).1 with
        | .error (.nonTermination _ _) => true
        | _ => false) = true := by
      decide +kernel
    have conclusive := conclusive_reporting 2 [⟨0⟩]
    cases run : (propagate [⟨0⟩]).apply (reporting newTasks 2) with
    | mk answer final =>
        rw [run] at outcome conclusive
        split at outcome
        · rename_i phase limit failed
          obtain rfl : answer = _ := failed
          obtain ⟨rounds, _, settled, records, ending, -, -, -, -, unsaved, usedUp⟩ :=
            propagate_accounts run
          obtain ⟨rfl, used, rfl, rfl⟩ := usedUp phase limit rfl conclusive
          exact ⟨final, rounds, settled, rfl, ending, used, unsaved _ rfl⟩
        · cases outcome

end Propagation

end Engine

end LifecycleGraph
