import LifecycleGraph.Engine.Commit

/-!
# Rounds that are noted

A world can keep notes beside what services act on.  A noted call does what the
call does and adds a note when it is taken and when it has acted.  A round of
noted calls replies as the round of the calls does and leaves the same world; its
notes are those of the taking, in the order of the calls, and then those of the
acting, in the order of arrival.
-/

set_option autoImplicit false

namespace LifecycleGraph

theorem insertBy_map {α β : Type} {key : α → Nat} {other : β → Nat} {change : α → β}
    (same : ∀ member, other (change member) = key member) (member : α) (list : List α) :
    insertBy other (change member) (list.map change) = (insertBy key member list).map change := by
  induction list with
  | nil => rfl
  | cons first rest inductionHypothesis =>
      simp only [List.map_cons, insertBy, same]
      split
      · rfl
      · rw [inductionHypothesis, List.map_cons]

theorem sortBy_map {α β : Type} {key : α → Nat} {other : β → Nat} {change : α → β}
    (same : ∀ member, other (change member) = key member) (list : List α) :
    sortBy other (list.map change) = (sortBy key list).map change := by
  induction list with
  | nil => rfl
  | cons member rest inductionHypothesis =>
      rw [List.map_cons, sortBy, inductionHypothesis, insertBy_map same, sortBy]

namespace Call

variable {ω α : Type}

theorem length_takeAll (calls : List (Call ω α)) (world : ω) :
    (takeAll calls world).1.length = calls.length := by
  induction calls generalizing world with
  | nil => rfl
  | cons call rest inductionHypothesis =>
      simp only [takeAll, List.length_cons, inductionHypothesis]

theorem length_actAll (timeout : Nat) (pending : List (Pending ω α)) (world : ω) :
    (actAll timeout pending world).1.length = pending.length := by
  induction pending generalizing world with
  | nil => rfl
  | cons first rest inductionHypothesis =>
      simp only [actAll, List.length_cons, inductionHypothesis]

/-- Every call of a round has one reply. -/
theorem length_round (timeout : Nat) (calls : List (Call ω α)) (world : ω) :
    (round timeout calls world).1.length = calls.length := by
  have taken := length_takeAll calls world
  have sorted := (sortBy_perm Pending.delay (takeAll calls world).1).length_eq
  simp only [round, length_actAll, sorted, taken]

/-! ## What all calls of a round respect -/

/-- What the call does at once and later are such steps, and its replies are of a kind. -/
structure Respects (step : ω → ω → Prop) (kind : Reply α → Prop) (call : Call ω α) : Prop where
  taken : ∀ world, step world (call world).2
  acted : ∀ world later, step later ((call world).1.act later).2
  replied : ∀ world later, kind ((call world).1.act later).1

section Respects

variable {step : ω → ω → Prop} {kind : Reply α → Prop} (refl : ∀ world, step world world)
  (trans : ∀ first second third, step first second → step second third → step first third)

include refl trans

theorem respects_takeAll {calls : List (Call ω α)}
    (respects : ∀ call ∈ calls, call.Respects step kind) (world : ω) :
    step world (takeAll calls world).2 ∧
      ∀ pending ∈ (takeAll calls world).1, ∀ later,
        step later (pending.act later).2 ∧ kind (pending.act later).1 := by
  induction calls generalizing world with
  | nil => exact ⟨refl world, fun _ member => by cases member⟩
  | cons call rest inductionHypothesis =>
      have first := respects call (List.mem_cons_self ..)
      obtain ⟨others, otherActs⟩ := inductionHypothesis
        (fun other member => respects other (List.mem_cons_of_mem _ member)) (call world).2
      refine ⟨trans _ _ _ (first.taken world) others, fun pending member later => ?_⟩
      rcases List.mem_cons.mp member with rfl | inRest
      · exact ⟨first.acted world later, first.replied world later⟩
      · exact otherActs pending inRest later

theorem respects_actAll (late : kind .late) (timeout : Nat) {pending : List (Pending ω α)}
    (acts : ∀ taken ∈ pending, ∀ later,
      step later (taken.act later).2 ∧ kind (taken.act later).1) (world : ω) :
    step world (actAll timeout pending world).2 ∧
      ∀ reply ∈ (actAll timeout pending world).1, kind reply := by
  induction pending generalizing world with
  | nil => exact ⟨refl world, fun _ member => by cases member⟩
  | cons first rest inductionHypothesis =>
      have others := inductionHypothesis
        fun taken member => acts taken (List.mem_cons_of_mem _ member)
      by_cases isLate : timeout < first.delay
      · simp only [actAll, isLate, if_true, List.forall_mem_cons]
        exact ⟨(others world).1, late, (others world).2⟩
      · simp only [actAll, isLate, if_false, List.forall_mem_cons]
        obtain ⟨acted, replied⟩ := acts first (List.mem_cons_self ..) world
        exact ⟨trans _ _ _ acted (others _).1, replied, (others _).2⟩

/-- A round goes in such steps too, and its replies are of the kind. -/
theorem respects_round (late : kind .late) (timeout : Nat) {calls : List (Call ω α)}
    (respects : ∀ call ∈ calls, call.Respects step kind) (world : ω) :
    step world (round timeout calls world).2 ∧
      ∀ reply ∈ (round timeout calls world).1, kind reply := by
  obtain ⟨taken, acts⟩ := respects_takeAll refl trans respects world
  obtain ⟨acted, replied⟩ := respects_actAll refl trans late timeout (fun pending member =>
    acts pending ((sortBy_perm Pending.delay _).mem_iff.mp member)) (takeAll calls world).2
  exact ⟨trans _ _ _ taken acted, replied⟩

theorem step_round (timeout : Nat) {calls : List (Call ω α)}
    (respects : ∀ call ∈ calls, call.Respects step fun _ => True) (world : ω) :
    step world (round timeout calls world).2 :=
  have late : (fun _ : Reply α => True) .late := trivial
  (respects_round refl trans late timeout respects world).1

end Respects

end Call

/-- What the service does while changes are propagated and committed are such steps. -/
structure Service.Respects {ω : Type} (step : ω → ω → Prop) (service : Service ω) : Prop where
  modified : ∀ nodes, (service.modified nodes).Respects step fun _ => True
  prepare : ∀ batch, (service.prepare batch).Respects step fun _ => True
  commit : ∀ batch, (service.commit batch).Respects step fun _ => True

/-! ## Notes -/

namespace World

variable {σ ε : Type}

/-- A world with notes. -/
def noting (world : World σ) (notes : List ε) : World (σ × List ε) :=
  ⟨world.repository, (world.outside, notes)⟩

def bare (world : World (σ × List ε)) : World σ := ⟨world.repository, world.outside.1⟩

def notes (world : World (σ × List ε)) : List ε := world.outside.2

@[simp] theorem bare_noting (world : World σ) (notes : List ε) :
    (world.noting notes).bare = world := rfl

@[simp] theorem notes_noting (world : World σ) (notes : List ε) :
    (world.noting notes).notes = notes := rfl

end World

section

variable {σ α ε : Type}

/-- A taken call that is noted when it has acted. -/
def Pending.noting (acted : Reply α → List ε) (pending : Pending (World σ) α) :
    Pending (World (σ × List ε)) α where
  delay := pending.delay
  act world :=
    let (reply, changed) := pending.act world.bare
    (reply, changed.noting (world.notes ++ acted reply))

/-- A call that is noted when it is taken and when it has acted. -/
def Call.noting (taken : List ε) (acted : Reply α → List ε) (call : Call (World σ) α) :
    Call (World (σ × List ε)) α :=
  fun world =>
    let (pending, changed) := call world.bare
    (pending.noting acted, changed.noting (world.notes ++ taken))

/-- A service that does as another one beside notes, and adds none. -/
def Service.quiet (service : Service (World σ)) : Service (World (σ × List ε)) where
  initialise world :=
    let (answer, changed) := service.initialise world.bare
    (answer, changed.noting world.notes)
  close world :=
    let (answer, changed) := service.close world.bare
    (answer, changed.noting world.notes)
  update nodes := (service.update nodes).noting [] fun _ => []
  modified nodes := (service.modified nodes).noting [] fun _ => []
  prepare batch := (service.prepare batch).noting [] fun _ => []
  commit batch := (service.commit batch).noting [] fun _ => []

end

namespace Call

variable {σ α ε ι : Type} (call : ι → Call (World σ) α) (taken : ι → List ε)
  (acted : ι → Reply α → List ε)

/-- A taken call, noted in the way of its item. -/
def notingPending (item : ι × Pending (World σ) α) : Pending (World (σ × List ε)) α :=
  item.2.noting (acted item.1)

theorem takeAll_noting (items : List ι) (world : World σ) (notes : List ε) :
    takeAll (items.map fun item => (call item).noting (taken item) (acted item))
        (world.noting notes) =
      ((items.zip (takeAll (items.map call) world).1).map (notingPending acted),
        (takeAll (items.map call) world).2.noting (notes ++ items.flatMap taken)) := by
  induction items generalizing world notes with
  | nil => simp [takeAll]
  | cons item rest inductionHypothesis =>
      simp only [List.map_cons, takeAll, Call.noting, World.bare_noting, World.notes_noting,
        inductionHypothesis, List.zip_cons_cons, List.flatMap_cons, List.append_assoc,
        notingPending]

theorem actAll_noting (quiet : ∀ item, acted item .late = []) (timeout : Nat)
    (pending : List (ι × Pending (World σ) α)) (world : World σ) (notes : List ε) :
    actAll timeout (pending.map (notingPending acted)) (world.noting notes) =
      ((actAll timeout (pending.map Prod.snd) world).1,
        (actAll timeout (pending.map Prod.snd) world).2.noting
          (notes ++ ((pending.map Prod.fst).zip
            (actAll timeout (pending.map Prod.snd) world).1).flatMap fun reply =>
              acted reply.1 reply.2)) := by
  induction pending generalizing world notes with
  | nil => simp [actAll]
  | cons first rest inductionHypothesis =>
      obtain ⟨item, first⟩ := first
      by_cases late : timeout < first.delay
      · simp only [List.map_cons, actAll, notingPending, Pending.noting, late, if_true]
        rw [inductionHypothesis]
        simp [quiet]
      · simp only [List.map_cons, actAll, notingPending, Pending.noting, late, if_false,
          World.bare_noting, World.notes_noting]
        rw [inductionHypothesis]
        simp

/-- A round of noted calls is the round of the calls, with the notes. -/
theorem round_noting (quiet : ∀ item, acted item .late = []) (timeout : Nat) (items : List ι)
    (world : World σ) (notes : List ε) :
    ∃ arrival : List ι, arrival.Perm items ∧
      round timeout (items.map fun item => (call item).noting (taken item) (acted item))
          (world.noting notes) =
        ((round timeout (items.map call) world).1,
          (round timeout (items.map call) world).2.noting
            (notes ++ items.flatMap taken ++
              (arrival.zip (round timeout (items.map call) world).1).flatMap fun reply =>
                acted reply.1 reply.2)) := by
  have lengths : items.length = (takeAll (items.map call) world).1.length := by
    rw [length_takeAll, List.length_map]
  -- The items are sorted along with what was taken of them, to know who replied what.
  let pairs := items.zip (takeAll (items.map call) world).1
  have delays (pair : ι × Pending (World σ) α) :
      (notingPending acted pair).delay = pair.2.delay := rfl
  have sorted : sortBy Pending.delay (takeAll (items.map call) world).1 =
      (sortBy (fun pair => pair.2.delay) pairs).map Prod.snd := by
    rw [← sortBy_map (fun _ => rfl), List.map_snd_zip (Nat.le_of_eq lengths.symm)]
  refine ⟨(sortBy (fun pair => pair.2.delay) pairs).map Prod.fst, ?_, ?_⟩
  · have arrivals := (sortBy_perm (fun pair => pair.2.delay) pairs).map Prod.fst
    rwa [List.map_fst_zip (Nat.le_of_eq lengths)] at arrivals
  · simp only [round, takeAll_noting, sortBy_map delays, actAll_noting acted quiet, sorted, pairs]

end Call

end LifecycleGraph
