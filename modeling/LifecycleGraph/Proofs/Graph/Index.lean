import LifecycleGraph.Proofs.Collection
import LifecycleGraph.Graph.Index

/-!
# Laws of the indices

What an index lists after a node was put under a key, taken from under it, or
the key was taken away.
-/

set_option autoImplicit false

namespace LifecycleGraph

namespace Table

variable {κ : Type} [LT κ] [DecidableEq κ]

/-- The nodes under each key ascend. -/
def Ascends (table : Table κ (Ascending NodeId)) : Prop :=
  ∀ key members, table.find? key = some members → members.Sorted

variable {table : Table κ (Ascending NodeId)}

omit [LT κ] in
theorem hasMember_iff (key : κ) (id : NodeId) :
    table.hasMember key id = true ↔
      ∃ members, table.find? key = some members ∧ id ∈ members.members := by
  simp [hasMember, Option.any_eq_true]

omit [LT κ] in
@[simp] theorem hasMember_empty (key : κ) (id : NodeId) :
    (empty : Table κ (Ascending NodeId)).hasMember key id = false := rfl

omit [LT κ] in
theorem mem_listed_iff (key : κ) (id : NodeId) :
    id ∈ ((table.find? key).map Ascending.members).getD [] ↔ table.hasMember key id = true := by
  cases found : table.find? key with
  | none => simp [hasMember, found]
  | some members => simp [hasMember, found]

omit [LT κ] in
theorem Ascends.sorted_listed (ascends : table.Ascends) (key : κ) :
    (((table.find? key).map Ascending.members).getD []).Pairwise (· < ·) := by
  cases found : table.find? key with
  | none => exact .nil
  | some members => exact ascends _ _ found

omit [LT κ] in
theorem Ascends.nodup_listed (ascends : table.Ascends) (key : κ) :
    (((table.find? key).map Ascending.members).getD []).Nodup := by
  cases found : table.find? key with
  | none => exact List.nodup_nil
  | some members => exact (ascends _ _ found).nodup

omit [LT κ] in
theorem ascends_empty : (empty : Table κ (Ascending NodeId)).Ascends :=
  fun _ _ found => by cases found

omit [LT κ] in
theorem Ascends.erase (ascends : table.Ascends) (key : κ) : (table.erase key).Ascends := by
  intro other members found
  rw [find?_erase] at found
  split at found
  · cases found
  · exact ascends _ _ found

omit [LT κ] in
theorem hasMember_erase (key other : κ) (id : NodeId) :
    (table.erase key).hasMember other id = true ↔
      table.hasMember other id = true ∧ key ≠ other := by
  simp only [hasMember, find?_erase]
  by_cases same : key = other <;> simp [same]

omit [LT κ] in
theorem find?_eraseAll (keys : List κ) (other : κ) :
    (keys.foldl Table.erase table).find? other =
      if other ∈ keys then none else table.find? other := by
  induction keys generalizing table with
  | nil => simp
  | cons key rest inductionHypothesis =>
      rw [List.foldl_cons, inductionHypothesis, find?_erase]
      by_cases inRest : other ∈ rest
      · simp [inRest]
      · simp [inRest, eq_comm (a := key)]

omit [LT κ] in
theorem hasMember_eraseAll (keys : List κ) (other : κ) (id : NodeId) :
    (keys.foldl Table.erase table).hasMember other id = true ↔
      table.hasMember other id = true ∧ other ∉ keys := by
  rw [hasMember, find?_eraseAll]
  by_cases isGone : other ∈ keys <;> simp [isGone, hasMember]

omit [LT κ] in
theorem Ascends.eraseAll (ascends : table.Ascends) (keys : List κ) :
    (keys.foldl Table.erase table).Ascends := by
  induction keys generalizing table with
  | nil => exact ascends
  | cons key rest inductionHypothesis => exact inductionHypothesis (ascends.erase key)

variable [DecidableLT κ]

theorem hasMember_addMember (key other : κ) (id member : NodeId) :
    (table.addMember key id).hasMember other member = true ↔
      table.hasMember other member = true ∨ key = other ∧ member = id := by
  simp only [hasMember, addMember, find?_insert]
  by_cases same : key = other
  · subst same
    cases table.find? key with
    | none => simp [Ascending.mem_insert, Ascending.empty]
    | some members => simp [Ascending.mem_insert, or_comm]
  · simp [same]

theorem hasMember_dropMember (key other : κ) (id member : NodeId) :
    (table.dropMember key id).hasMember other member = true ↔
      table.hasMember other member = true ∧ ¬ (key = other ∧ member = id) := by
  rw [dropMember]
  cases found : table.find? key with
  | none =>
      refine (and_iff_left_of_imp ?_).symm
      intro listed outcome
      obtain ⟨rfl, -⟩ := outcome
      simp [hasMember, found] at listed
  | some members =>
      simp only
      split
      · rename_i nobody
        have left : (members.erase id).members = [] := List.isEmpty_iff.mp nobody
        rw [hasMember_erase]
        refine and_congr_right fun listed => ?_
        constructor
        · intro different outcome
          obtain ⟨same, -⟩ := outcome
          exact different same
        · intro notIt same
          obtain rfl := same
          obtain ⟨held, isHeld, isMember⟩ := (hasMember_iff key member).mp listed
          rw [found] at isHeld
          cases isHeld
          have stays := (Ascending.mem_erase members id member).mpr
            ⟨isMember, fun same => notIt ⟨rfl, same⟩⟩
          rw [left] at stays
          cases stays
      · simp only [hasMember, find?_insert]
        by_cases same : key = other
        · subst same
          simp [found, Ascending.mem_erase]
        · simp [same]

theorem hasMember_dropAll (keys : List κ) (other : κ) (id member : NodeId) :
    (keys.foldl (fun members key => members.dropMember key id) table).hasMember other member =
        true ↔
      table.hasMember other member = true ∧ ¬ (other ∈ keys ∧ member = id) := by
  induction keys generalizing table with
  | nil => simp
  | cons key rest inductionHypothesis =>
      rw [List.foldl_cons, inductionHypothesis, hasMember_dropMember, List.mem_cons,
        eq_comm (a := other)]
      tauto

theorem Ascends.addMember (ascends : table.Ascends) (key : κ) (id : NodeId) :
    (table.addMember key id).Ascends := by
  intro other members found
  rw [Table.addMember, find?_insert] at found
  split at found
  · cases found
    cases held : table.find? key with
    | none => exact Ascending.sorted_empty.insert id
    | some members => exact (ascends _ _ held).insert id
  · exact ascends _ _ found

theorem Ascends.dropMember (ascends : table.Ascends) (key : κ) (id : NodeId) :
    (table.dropMember key id).Ascends := by
  rw [Table.dropMember]
  cases held : table.find? key with
  | none => exact ascends
  | some members =>
      simp only
      split
      · exact ascends.erase key
      · intro other left found
        rw [find?_insert] at found
        split at found
        · cases found
          exact (ascends _ _ held).erase id
        · exact ascends _ _ found

theorem Ascends.dropAll (ascends : table.Ascends) (keys : List κ) (id : NodeId) :
    (keys.foldl (fun members key => members.dropMember key id) table).Ascends := by
  induction keys generalizing table with
  | nil => exact ascends
  | cons key rest inductionHypothesis => exact inductionHypothesis (ascends.dropMember key id)

/-! ## The order of the keys -/

variable [IsStrictTotalOrder κ (· < ·)]

theorem Sorted.addMember (sorted : table.Sorted) (key : κ) (id : NodeId) :
    (table.addMember key id).Sorted :=
  sorted.insert key _

theorem Sorted.dropMember (sorted : table.Sorted) (key : κ) (id : NodeId) :
    (table.dropMember key id).Sorted := by
  rw [Table.dropMember]
  split
  · simp only
    split
    · exact sorted.erase key
    · exact sorted.insert key _
  · exact sorted

omit [DecidableLT κ] [IsStrictTotalOrder κ (· < ·)] in
theorem Sorted.eraseAll (sorted : table.Sorted) (keys : List κ) :
    (keys.foldl Table.erase table).Sorted := by
  induction keys generalizing table with
  | nil => exact sorted
  | cons key rest inductionHypothesis => exact inductionHypothesis (sorted.erase key)

theorem Sorted.dropAll (sorted : table.Sorted) (keys : List κ) (id : NodeId) :
    (keys.foldl (fun members key => members.dropMember key id) table).Sorted := by
  induction keys generalizing table with
  | nil => exact sorted
  | cons key rest inductionHypothesis => exact inductionHypothesis (sorted.dropMember key id)

end Table

end LifecycleGraph
