/-!
# Sorting by a number

A list in the order of a number that each member has; members with the same
number keep their order.
-/

set_option autoImplicit false

namespace LifecycleGraph

variable {α : Type}

def insertBy (key : α → Nat) (member : α) : List α → List α
  | [] => [member]
  | other :: rest =>
      if key member ≤ key other then member :: other :: rest
      else other :: insertBy key member rest

def sortBy (key : α → Nat) : List α → List α
  | [] => []
  | member :: rest => insertBy key member (sortBy key rest)

theorem insertBy_perm (key : α → Nat) (member : α) (list : List α) :
    (insertBy key member list).Perm (member :: list) := by
  induction list with
  | nil => exact .refl _
  | cons other rest inductionHypothesis =>
      unfold insertBy
      split
      · exact .refl _
      · exact (inductionHypothesis.cons other).trans (.swap member other rest)

theorem sortBy_perm (key : α → Nat) (list : List α) : (sortBy key list).Perm list := by
  induction list with
  | nil => exact .refl _
  | cons member rest inductionHypothesis =>
      exact (insertBy_perm key member _).trans (inductionHypothesis.cons member)

theorem insertBy_ascending (key : α → Nat) (member : α) (list : List α)
    (ascending : list.Pairwise (key · ≤ key ·)) :
    (insertBy key member list).Pairwise (key · ≤ key ·) := by
  induction list with
  | nil => simp [insertBy]
  | cons other rest inductionHypothesis =>
      obtain ⟨first, later⟩ := List.pairwise_cons.mp ascending
      unfold insertBy
      split
      · rename_i before
        refine List.pairwise_cons.mpr ⟨fun next isNext => ?_, ascending⟩
        rcases List.mem_cons.mp isNext with rfl | isLater
        · exact before
        · exact Nat.le_trans before (first next isLater)
      · rename_i after
        refine List.pairwise_cons.mpr ⟨fun next isNext => ?_, inductionHypothesis later⟩
        rcases List.mem_cons.mp ((insertBy_perm key member rest).mem_iff.mp isNext) with
          rfl | isLater
        · exact Nat.le_of_lt (Nat.lt_of_not_le after)
        · exact first next isLater

theorem sortBy_ascending (key : α → Nat) (list : List α) :
    (sortBy key list).Pairwise (key · ≤ key ·) := by
  induction list with
  | nil => exact .nil
  | cons member rest inductionHypothesis =>
      exact insertBy_ascending key member _ inductionHypothesis

end LifecycleGraph
