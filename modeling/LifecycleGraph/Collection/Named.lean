/-!
# Named values

Values under names, in the order in which the names first came.  A name that
comes again keeps its place, and its new value takes over.
-/

set_option autoImplicit false

namespace LifecycleGraph

variable {α : Type}

/-- Puts a value under a name, in the place of the old value or at the end. -/
def putNamed (name : String) (value : α) : List (String × α) → List (String × α)
  | [] => [(name, value)]
  | (other, old) :: rest =>
      if other = name then (other, value) :: rest else (other, old) :: putNamed name value rest

theorem lookup_putNamed (name other : String) (value : α) (entries : List (String × α)) :
    (putNamed name value entries).lookup other =
      if other = name then some value else entries.lookup other := by
  have found (key : String) (held : α) (rest : List (String × α)) :
      ((key, held) :: rest).lookup other =
        if other = key then some held else rest.lookup other := by
    by_cases same : other = key
    · simp [same]
    · have unlike : (other == key) = false := beq_eq_false_iff_ne.mpr same
      simp only [List.lookup_cons, unlike, same, if_false]
  induction entries with
  | nil => exact found name value []
  | cons entry rest inductionHypothesis =>
      obtain ⟨first, old⟩ := entry
      by_cases known : first = name
      · subst known
        simp only [putNamed, if_true, found]
        split <;> rfl
      · simp only [putNamed, known, if_false, found, inductionHypothesis]
        by_cases same : other = first
        · subst same
          simp [known]
        · simp [same]

theorem names_putNamed (name : String) (value : α) (entries : List (String × α)) :
    (putNamed name value entries).map Prod.fst =
      if name ∈ entries.map Prod.fst then entries.map Prod.fst
      else entries.map Prod.fst ++ [name] := by
  induction entries with
  | nil => simp [putNamed]
  | cons entry rest inductionHypothesis =>
      obtain ⟨first, old⟩ := entry
      by_cases known : first = name
      · simp [putNamed, known]
      · have unlike : ¬ name = first := fun same => known same.symm
        simp only [putNamed, known, if_false, List.map_cons, inductionHypothesis, List.mem_cons,
          unlike, false_or]
        split <;> simp

end LifecycleGraph
