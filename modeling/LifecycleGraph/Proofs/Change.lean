import LifecycleGraph.Change

/-!
# Reasoning about changes

What a change leads to from a state: how it answers and what state it leaves,
and what state it leaves when it is stopped.  The rules follow the way in which
changes are put together, and say what a sequence of changes keeps.
-/

set_option autoImplicit false

namespace LifecycleGraph

/-- A sequence of questions is answered if the first is, and then the second. -/
theorem exists_of_bind_eq_ok {ε α β : Type} {first : Except ε α} {second : α → Except ε β}
    {answer : β} (answered : (first >>= second) = .ok answer) :
    ∃ middle, first = .ok middle ∧ second middle = .ok answer := by
  cases first with
  | error fault => cases answered
  | ok middle => exact ⟨middle, rfl, answered⟩

theorem ok_bind {ε α β : Type} (middle : α) (second : α → Except ε β) :
    ((.ok middle : Except ε α) >>= second) = second middle := rfl

/-- If what follows is always answered, it is the first question that was not. -/
theorem error_of_bind_eq_error {ε α β : Type} {first : Except ε α} {second : α → Except ε β}
    {fault : ε} (failed : (first >>= second) = .error fault)
    (answers : ∀ middle, ∃ answer, second middle = .ok answer) : first = .error fault := by
  cases first with
  | error other => exact congrArg Except.error (Except.error.inj failed)
  | ok middle =>
      obtain ⟨answer, answered⟩ := answers middle
      have failed : second middle = .error fault := failed
      rw [answered] at failed
      cases failed

/-- A question with a step before it fails where the step does, or after it. -/
theorem exists_of_bind_eq_error {ε α β : Type} {first : Except ε α} {second : α → Except ε β}
    {fault : ε} (failed : (first >>= second) = .error fault) :
    first = .error fault ∨ ∃ middle, first = .ok middle ∧ second middle = .error fault := by
  cases first with
  | error other =>
      cases failed
      exact .inl rfl
  | ok middle => exact .inr ⟨middle, rfl, failed⟩

theorem eq_ok_of_toOption {ε α : Type} {answered : Except ε α} {answer : α}
    (same : answered.toOption = some answer) : answered = .ok answer := by
  cases answered with
  | error fault => cases same
  | ok given => exact congrArg Except.ok (Option.some.inj same)

theorem exists_error_of_toOption {ε α : Type} {answered : Except ε α}
    (noAnswer : answered.toOption = none) : ∃ fault, answered = .error fault := by
  cases answered with
  | error fault => exact ⟨fault, rfl⟩
  | ok given => cases noAnswer

theorem exists_of_map_eq_ok {ε α β : Type} {first : Except ε α} {change : α → β} {answer : β}
    (answered : first.map change = .ok answer) :
    ∃ middle, first = .ok middle ∧ change middle = answer := by
  cases first with
  | error fault => cases answered
  | ok middle => exact ⟨middle, rfl, Except.ok.inj answered⟩

namespace Change

variable {σ τ α β : Type}

/-- From a state, a change answers as `post` says, or is stopped as `stopped` says. -/
def Leads (change : Change σ α) (state : σ) (post : α → σ → Prop) (stopped : σ → Prop) : Prop :=
  match change.apply state with
  | (.ok answer, changed) => post answer changed
  | (.error _, changed) => stopped changed

/-- A change leaves a state of a kind, however it ends. -/
def Keeps (kept : σ → Prop) (change : Change σ α) : Prop :=
  ∀ state, kept state → change.Leads state (fun _ => kept) kept

variable {state : σ} {post : α → σ → Prop} {stopped : σ → Prop}

theorem apply_set (next : σ) (state : σ) :
    (set next : Change σ PUnit).apply state = (.ok ⟨⟩, next) := rfl

/-- An answer that is only put into another form. -/
theorem apply_bind_pure (change : Change σ α) (form : α → β) (state : σ) :
    (change >>= fun answer => pure (form answer)).apply state =
      ((change.apply state).1.map form, (change.apply state).2) := by
  rw [apply_bind]
  cases change.apply state with
  | mk answer changed => cases answer <;> rfl

theorem Leads.imp {change : Change σ α} {post' : α → σ → Prop} {stopped' : σ → Prop}
    (leads : change.Leads state post stopped)
    (posts : ∀ answer changed, post answer changed → post' answer changed)
    (stops : ∀ changed, stopped changed → stopped' changed) :
    change.Leads state post' stopped' := by
  unfold Leads at *
  split
  · rename_i answer changed applied
    rw [applied] at leads
    exact posts answer changed leads
  · rename_i fault changed applied
    rw [applied] at leads
    exact stops changed leads

theorem Leads.and {change : Change σ α} {post' : α → σ → Prop} {stopped' : σ → Prop}
    (leads : change.Leads state post stopped) (also : change.Leads state post' stopped') :
    change.Leads state (fun answer changed => post answer changed ∧ post' answer changed)
      (fun changed => stopped changed ∧ stopped' changed) := by
  unfold Leads at *
  split
  · rename_i applied
    rw [applied] at leads also
    exact ⟨leads, also⟩
  · rename_i applied
    rw [applied] at leads also
    exact ⟨leads, also⟩

/-- However a change ends, it leaves the state of which both ways tell. -/
theorem Leads.state_apply {change : Change σ α} {kept : σ → Prop}
    (leads : change.Leads state (fun _ => kept) kept) : kept (change.apply state).2 := by
  rw [Leads] at leads
  split at leads <;> rename_i applied <;> rw [applied] <;> exact leads

/-- A change that failed left what is said of a change that is stopped. -/
theorem Leads.state_of_error {change : Change σ α} (leads : change.Leads state post stopped)
    {fault : Fault} (failed : (change.apply state).1 = .error fault) :
    stopped (change.apply state).2 := by
  rw [Leads] at leads
  split at leads
  · rename_i answer changed applied
    rw [applied] at failed
    cases failed
  · rename_i applied
    rw [applied]
    exact leads

/-- A change that is never stopped answers, and left what is said of its answers. -/
theorem Leads.exists_answer {change : Change σ α}
    (leads : change.Leads state post (fun _ => False)) :
    ∃ answer changed, change.apply state = (.ok answer, changed) ∧ post answer changed := by
  rw [Leads] at leads
  split at leads
  · rename_i answer changed applied
    exact ⟨answer, changed, applied, leads⟩
  · exact leads.elim

theorem Leads.answer_of_never {change : Change σ Unit} {post : σ → Prop}
    (leads : change.Leads state (fun _ => post) (fun _ => False)) :
    (change.apply state).1 = .ok () ∧ post (change.apply state).2 := by
  obtain ⟨_, changed, applied, holds⟩ := leads.exists_answer
  rw [applied]
  exact ⟨rfl, holds⟩

theorem leads_pure {answer : α} (holds : post answer state) :
    (pure answer : Change σ α).Leads state post stopped := holds

theorem leads_get {post : σ → σ → Prop} (holds : post state state) :
    (get : Change σ σ).Leads state post stopped := holds

theorem leads_set {post : PUnit → σ → Prop} {next : σ} (holds : post ⟨⟩ next) :
    (set next : Change σ PUnit).Leads state post stopped := holds

theorem leads_modify {post : PUnit → σ → Prop} {function : σ → σ}
    (holds : post ⟨⟩ (function state)) :
    (modify function : Change σ PUnit).Leads state post stopped := holds

theorem leads_ofFunction {function : σ → Except Fault α × σ} :
    (ofFunction function).Leads state post stopped ↔
      match function state with
      | (.ok answer, changed) => post answer changed
      | (.error _, changed) => stopped changed := Iff.rfl

theorem leads_ask {question : σ → Except Fault α}
    (answered : ∀ answer, question state = .ok answer → post answer state)
    (refused : ∀ fault, question state = .error fault → stopped state) :
    (ask question).Leads state post stopped := by
  rw [Leads, apply_ask]
  cases asked : question state with
  | ok answer => exact answered answer asked
  | error fault => exact refused fault asked

theorem leads_bind {change : Change σ α} {next : α → Change σ β} (mid : α → σ → Prop)
    {post : β → σ → Prop} (first : change.Leads state mid stopped)
    (second : ∀ answer changed, mid answer changed →
      (next answer).Leads changed post stopped) :
    (change >>= next).Leads state post stopped := by
  rw [Leads] at first
  rw [Leads, apply_bind]
  cases applied : change.apply state with
  | mk answer changed =>
      rw [applied] at first
      cases answer with
      | ok answer => exact second answer changed first
      | error fault => exact first

/-- It makes no difference that an answer is not passed on. -/
theorem Leads.answerless {change : Change σ α} {reached : σ → Prop}
    (leads : change.Leads state (fun _ => reached) stopped) :
    (change >>= fun _ => pure ()).Leads state (fun _ => reached) stopped :=
  leads_bind _ leads fun _ _ isReached => leads_pure isReached

/-- A change that asks for the state goes on in the same state. -/
theorem leads_get_bind {next : σ → Change σ β} {post : β → σ → Prop}
    (onwards : (next state).Leads state post stopped) :
    ((get : Change σ σ) >>= next).Leads state post stopped := by
  refine leads_bind (fun asked same => asked = state ∧ same = state) (leads_get ⟨rfl, rfl⟩) ?_
  rintro asked same ⟨rfl, rfl⟩
  exact onwards

/-- A change that asks a question goes on in the same state. -/
theorem leads_ask_bind {question : σ → Except Fault α} {next : α → Change σ β}
    {post : β → σ → Prop}
    (answered : ∀ answer, question state = .ok answer → (next answer).Leads state post stopped)
    (refused : ∀ fault, question state = .error fault → stopped state) :
    (ask question >>= next).Leads state post stopped := by
  refine leads_bind (fun answer same => question state = .ok answer ∧ same = state)
    (leads_ask (fun _ isAnswer => ⟨isAnswer, rfl⟩) refused) ?_
  rintro answer same ⟨isAnswer, rfl⟩
  exact answered answer isAnswer

theorem leads_set_bind {next : PUnit → Change σ β} {post : β → σ → Prop} {other : σ}
    (onwards : (next ⟨⟩).Leads other post stopped) :
    ((set other : Change σ PUnit) >>= next).Leads state post stopped := by
  refine leads_bind (fun _ changed => changed = other) (leads_set rfl) ?_
  rintro _ changed rfl
  exact onwards

theorem leads_within {part : τ → σ} {replace : τ → σ → τ} {change : Change σ α} {whole : τ}
    {post : α → τ → Prop} {stopped : τ → Prop}
    (leads : change.Leads (part whole) (fun answer changed => post answer (replace whole changed))
      (fun changed => stopped (replace whole changed))) :
    (within part replace change).Leads whole post stopped := by
  unfold Leads at *
  rw [apply_within]
  revert leads
  cases change.apply (part whole) with
  | mk answer changed => cases answer <;> exact id

/-- What each change of a sequence keeps is kept by the sequence. -/
theorem leads_forEach {members : List β} {change : β → Change σ Unit} (kept : σ → Prop)
    (start : kept state)
    (each : ∀ member ∈ members, ∀ state, kept state →
      (change member).Leads state (fun _ => kept) stopped) :
    (forEach members change).Leads state (fun _ => kept) stopped := by
  induction members generalizing state with
  | nil => exact start
  | cons member rest inductionHypothesis =>
      refine leads_bind _ (each member (List.mem_cons_self ..) state start) ?_
      intro _ changed changedKept
      exact inductionHypothesis changedKept fun other inRest =>
        each other (List.mem_cons_of_mem _ inRest)

/-- A sequence gets where each change brings what those before it got to. -/
theorem leads_forEach_progress {members : List β} {change : β → Change σ Unit}
    (progress : List β → σ → Prop) (start : progress [] state)
    (each : ∀ done member rest, members = done ++ member :: rest → ∀ state, progress done state →
      (change member).Leads state (fun _ => progress (done ++ [member])) stopped) :
    (forEach members change).Leads state (fun _ => progress members) stopped := by
  have onwards (done rest : List β) (whole : members = done ++ rest) (state : σ)
      (reached : progress done state) :
      (forEach rest change).Leads state (fun _ => progress members) stopped := by
    induction rest generalizing done state with
    | nil =>
        rw [List.append_nil] at whole
        rw [whole]
        exact reached
    | cons member rest inductionHypothesis =>
        refine leads_bind _ (each done member rest whole state reached) ?_
        intro _ changed further
        exact inductionHypothesis (done ++ [member]) (by simp [whole]) changed further
  exact onwards [] members rfl state start

/-! ## Kept kinds of states -/

variable {kept : σ → Prop}

theorem keeps_pure (answer : α) : (pure answer : Change σ α).Keeps kept :=
  fun _ isKept => isKept

theorem keeps_stop (fault : Fault) : (stop fault : Change σ α).Keeps kept :=
  fun _ isKept => isKept

theorem keeps_ask (question : σ → Except Fault α) : (ask question).Keeps kept :=
  fun _ isKept => leads_ask (fun _ _ => isKept) fun _ _ => isKept

theorem keeps_modify {function : σ → σ} (keeps : ∀ state, kept state → kept (function state)) :
    (modify function : Change σ PUnit).Keeps kept := keeps

theorem Keeps.bind {change : Change σ α} {next : α → Change σ β} (first : change.Keeps kept)
    (second : ∀ answer, (next answer).Keeps kept) : (change >>= next).Keeps kept :=
  fun state isKept => leads_bind _ (first state isKept) fun answer changed => second answer changed

theorem Keeps.answerless {change : Change σ α} (keeps : change.Keeps kept) :
    (change >>= fun _ => pure ()).Keeps kept :=
  fun state isKept => (keeps state isKept).answerless

theorem keeps_forEach {members : List β} {change : β → Change σ Unit}
    (each : ∀ member, (change member).Keeps kept) : (forEach members change).Keeps kept :=
  fun _ isKept => leads_forEach kept isKept fun member _ => each member

theorem Keeps.and {change : Change σ α} {also : σ → Prop} (keeps : change.Keeps kept)
    (keepsAlso : change.Keeps also) : change.Keeps fun state => kept state ∧ also state :=
  fun state both => (keeps state both.1).and (keepsAlso state both.2)

theorem keeps_within {part : τ → σ} {replace : τ → σ → τ} {change : Change σ α}
    {kept : τ → Prop}
    (leads : ∀ whole, kept whole → change.Leads (part whole)
      (fun _ changed => kept (replace whole changed)) fun changed => kept (replace whole changed)) :
    (within part replace change).Keeps kept :=
  fun whole isKept => leads_within (leads whole isKept)

end Change

end LifecycleGraph
