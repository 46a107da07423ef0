import LifecycleGraph.Fault

/-!
# Changes

An operation on a state that may fail.  What was changed before the failure
stays changed, so the state is answered in either case.
-/

set_option autoImplicit false

namespace LifecycleGraph

abbrev Change (σ : Type) := ExceptT Fault (StateM σ)

namespace Change

variable {σ τ α : Type}

def apply (change : Change σ α) (state : σ) : Except Fault α × σ := (change.run).run state

def ofFunction (function : σ → Except Fault α × σ) : Change σ α :=
  ExceptT.mk fun state => pure (function state)

def ask (question : σ → Except Fault α) : Change σ α :=
  ofFunction fun state => (question state, state)

def within (part : σ → τ) (replace : σ → τ → σ) (change : Change τ α) : Change σ α :=
  ofFunction fun state =>
    let (answer, changed) := change.apply (part state)
    (answer, replace state changed)

def stop (fault : Fault) : Change σ α := ofFunction fun state => (.error fault, state)

/-- A change for each member of a list, in order, until one fails. -/
def forEach {β : Type} (members : List β) (change : β → Change σ Unit) : Change σ Unit :=
  match members with
  | [] => pure ()
  | member :: rest => do
      change member
      forEach rest change

@[simp] theorem apply_ofFunction (function : σ → Except Fault α × σ) (state : σ) :
    (ofFunction function).apply state = function state := rfl

@[simp] theorem apply_pure (answer : α) (state : σ) :
    (pure answer : Change σ α).apply state = (.ok answer, state) := rfl

@[simp] theorem apply_stop (fault : Fault) (state : σ) :
    (stop fault : Change σ α).apply state = (.error fault, state) := rfl

@[simp] theorem apply_ask (question : σ → Except Fault α) (state : σ) :
    (ask question).apply state = (question state, state) := rfl

@[simp] theorem apply_get (state : σ) :
    (get : Change σ σ).apply state = (.ok state, state) := rfl

@[simp] theorem apply_modify (function : σ → σ) (state : σ) :
    (modify function : Change σ PUnit).apply state = (.ok ⟨⟩, function state) := rfl

theorem apply_bind {β : Type} (change : Change σ α) (next : α → Change σ β) (state : σ) :
    (change >>= next).apply state =
      match change.apply state with
      | (.ok answer, changed) => (next answer).apply changed
      | (.error fault, changed) => (.error fault, changed) := by
  simp only [apply, bind, ExceptT.bind, ExceptT.run, ExceptT.mk, StateT.run, StateT.bind]
  cases change state with
  | mk answer changed => cases answer <;> rfl

theorem apply_within (part : σ → τ) (replace : σ → τ → σ) (change : Change τ α) (state : σ) :
    (within part replace change).apply state =
      ((change.apply (part state)).1, replace state (change.apply (part state)).2) := rfl

end Change

end LifecycleGraph
