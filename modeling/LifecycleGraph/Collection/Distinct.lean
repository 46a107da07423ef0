/-!
# First occurrences

A list without what has come before in it.
-/

set_option autoImplicit false

namespace LifecycleGraph

variable {α : Type} [DecidableEq α]

/-- The members of a list, each at the place of its first occurrence. -/
def firstOccurrences : List α → List α
  | [] => []
  | member :: rest => member :: (firstOccurrences rest).filter (· ≠ member)

theorem mem_firstOccurrences (member : α) (list : List α) :
    member ∈ firstOccurrences list ↔ member ∈ list := by
  induction list with
  | nil => simp [firstOccurrences]
  | cons first rest inductionHypothesis =>
      by_cases same : member = first
      · simp [firstOccurrences, same]
      · simp [firstOccurrences, same, inductionHypothesis]

theorem nodup_firstOccurrences (list : List α) : (firstOccurrences list).Nodup := by
  induction list with
  | nil => simp [firstOccurrences]
  | cons first rest inductionHypothesis =>
      simp only [firstOccurrences, List.nodup_cons, List.mem_filter, ne_eq, decide_not,
        Bool.not_eq_eq_eq_not, Bool.not_true, decide_eq_false_iff_not, not_true_eq_false,
        and_false, not_false_eq_true, true_and]
      exact inductionHypothesis.filter _

end LifecycleGraph
