import LifecycleGraph.Proofs.Engine.Settling

/-!
# What lasts through runs of an engine

What is so of an engine lasts if it is left so by the questions to the services and by each
transition, and does not depend on the number of runs nor on what was saved: then it is still
so after state changes and propagations, however they end.
-/

set_option autoImplicit false

namespace LifecycleGraph

namespace Engine

variable {σ : Type}

/-- It is left so by questions, by transitions and by all else that a run does. -/
structure Lasting (kept : Engine σ → Prop) : Prop where
  asked : ∀ engine nodes, kept engine → kept { engine with
    world := (callAll engine.services engine.timeout (·.modified nodes) engine.world).2 }
  moved : ∀ run targets, (transition run targets).Keeps kept
  others : ∀ engine runs storage, kept engine → kept { engine with runs, storage }

section Lasting

variable {kept : Engine σ → Prop} (lasting : Lasting kept)

include lasting

/-- The rounds leave it so, also where they are used up. -/
theorem keeps_modifiedRounds (run rounds : Nat) (spread : Spread) :
    (modifiedRounds run rounds spread).Keeps kept := by
  induction rounds generalizing spread with
  | zero => exact Change.keeps_pure _
  | succ rounds inductionHypothesis =>
      intro engine isKept
      rw [modifiedRounds]
      refine Change.leads_get_bind (Change.leads_set_bind ?_)
      have asked := lasting.asked engine spread.pending.members isKept
      refine Change.leads_bind _ (lasting.moved run _ _ asked) fun moved state kept => ?_
      simp only
      split
      · exact Change.leads_pure kept
      · exact inductionHypothesis _ state kept

theorem keeps_startRun : (startRun : Change (Engine σ) Nat).Keeps kept := by
  intro engine isKept
  rw [startRun]
  refine Change.leads_get_bind (Change.leads_set_bind (Change.leads_pure ?_))
  exact lasting.others engine (engine.runs + 1) engine.storage isKept

theorem keeps_save (nodes : List NodeId) : (save nodes).Keeps kept := by
  intro engine isKept
  refine (leads_save nodes engine).imp ?_ ?_
  · intro _ changed saved
    obtain ⟨storage, rfl⟩ := saved
    exact lasting.others engine engine.runs storage isKept
  · rintro changed rfl
    exact isKept

theorem keeps_changeStates (targets : List (NodeId × Option StateId)) :
    (changeStates targets).Keeps kept :=
  (keeps_startRun lasting).bind fun run => lasting.moved run targets

theorem keeps_propagate (nodes : List NodeId) : (propagate nodes).Keeps kept := by
  rw [propagate]
  refine (keeps_startRun lasting).bind fun run engine isKept => Change.leads_get_bind ?_
  refine Change.leads_bind _ (keeps_modifiedRounds lasting run engine.maxRounds _ engine isKept) ?_
  intro answer state isKept
  cases answer with
  | none => exact isKept
  | some touched =>
      exact ((keeps_save lasting nodes).bind fun _ => Change.keeps_pure _) state isKept

end Lasting

theorem transition_apply (run : Nat) (targets : List (NodeId × Option StateId))
    (engine : Engine σ) :
    (transition run targets).apply engine =
      match (Commit.commit engine.services engine.timeout
          (engine.world.repository.proposals targets .empty).1).apply engine.world with
      | (.ok applied, world) =>
          (.ok (applied.map Proposal.node), { engine with
            world
            history := engine.history ++ applied.map (Proposal.record run) })
      | (.error fault, world) => (.error fault, { engine with world }) := by
  simp only [transition, Change.apply_bind, Change.apply_get, onWorld, Change.apply_within]
  rcases (Commit.commit engine.services engine.timeout
    (engine.world.repository.proposals targets .empty).1).apply engine.world with
      ⟨fault | applied, world⟩
  · rfl
  · rfl

/-- If all that services do are steps of a kind, and changes of the graph are too, a run of the
engine goes from the world at its start in such steps. -/
theorem lasting_steps {step : World σ → World σ → Prop} (refl : ∀ world, step world world)
    (trans : ∀ first second third, step first second → step second third → step first third)
    (regraph : ∀ world graph, step world (Commit.withGraph world graph)) (start : World σ) :
    Lasting fun engine : Engine σ =>
      (∀ service ∈ engine.services, service.2.Respects step) ∧ step start engine.world where
  asked engine nodes isKept := by
    refine ⟨isKept.1, trans _ _ _ isKept.2 ?_⟩
    refine Call.step_round refl trans engine.timeout (fun call member => ?_) engine.world
    obtain ⟨service, isService, rfl⟩ := List.mem_map.mp member
    exact (isKept.1 service isService).modified nodes
  moved run targets engine isKept := by
    have committed := Commit.step_commit refl trans isKept.1 regraph engine.timeout
      (engine.world.repository.proposals targets .empty).1 engine.world
    rw [Change.Leads, transition_apply]
    generalize (Commit.commit engine.services engine.timeout
      (engine.world.repository.proposals targets .empty).1).apply engine.world = outcome
        at committed ⊢
    rcases outcome with ⟨fault | applied, world⟩
    · exact ⟨isKept.1, trans _ _ _ isKept.2 committed⟩
    · exact ⟨isKept.1, trans _ _ _ isKept.2 committed⟩
  others _ _ _ isKept := isKept

end Engine

end LifecycleGraph
