/-!
# Ascending collections

A finite set that is kept as the ascending list of its members, so that equal
sets are equal lists and every enumeration ascends.
-/

set_option autoImplicit false

namespace LifecycleGraph

structure Ascending (α : Type) where
  members : List α
deriving DecidableEq, Repr

namespace Ascending

variable {α : Type} [LT α] [DecidableLT α] [DecidableEq α]

def empty : Ascending α := ⟨[]⟩

def isEmpty (set : Ascending α) : Bool := set.members.isEmpty

def size (set : Ascending α) : Nat := set.members.length

def contains (set : Ascending α) (member : α) : Bool := set.members.contains member

/-- A list with a new member at its place; a member that it has is not added again. -/
def insertInto (member : α) : List α → List α
  | [] => [member]
  | other :: rest =>
      if member = other then other :: rest
      else if member < other then member :: other :: rest
      else other :: insertInto member rest

def insert (set : Ascending α) (member : α) : Ascending α :=
  ⟨insertInto member set.members⟩

def erase (set : Ascending α) (member : α) : Ascending α :=
  ⟨set.members.filter (· ≠ member)⟩

def insertAll (set : Ascending α) (members : List α) : Ascending α :=
  members.foldl insert set

def ofList (members : List α) : Ascending α := empty.insertAll members

def union (set other : Ascending α) : Ascending α := set.insertAll other.members

def difference (set other : Ascending α) : Ascending α :=
  ⟨set.members.filter fun member => !other.contains member⟩

omit [LT α] [DecidableLT α] in
@[simp] theorem contains_iff (set : Ascending α) (member : α) :
    set.contains member = true ↔ member ∈ set.members := by
  simp [contains]

theorem mem_insertInto (member other : α) (list : List α) :
    other ∈ insertInto member list ↔ other = member ∨ other ∈ list := by
  induction list with
  | nil => simp [insertInto]
  | cons first rest inductionHypothesis =>
      unfold insertInto
      split
      · rename_i same
        subst same
        simp
      · split
        · simp
        · simp only [List.mem_cons, inductionHypothesis]
          constructor
          · rintro (h | h | h)
            · exact .inr (.inl h)
            · exact .inl h
            · exact .inr (.inr h)
          · rintro (h | h | h)
            · exact .inr (.inl h)
            · exact .inl h
            · exact .inr (.inr h)

theorem mem_insert (set : Ascending α) (member other : α) :
    other ∈ (set.insert member).members ↔ other = member ∨ other ∈ set.members :=
  mem_insertInto member other set.members

omit [LT α] [DecidableLT α] in
theorem mem_erase (set : Ascending α) (member other : α) :
    other ∈ (set.erase member).members ↔ other ∈ set.members ∧ other ≠ member := by
  simp [erase]

theorem mem_insertAll (members : List α) (set : Ascending α) (other : α) :
    other ∈ (set.insertAll members).members ↔ other ∈ members ∨ other ∈ set.members := by
  unfold insertAll
  induction members generalizing set with
  | nil => simp
  | cons first rest inductionHypothesis =>
      simp only [List.foldl_cons, inductionHypothesis, mem_insert, List.mem_cons]
      constructor
      · rintro (h | h | h)
        · exact .inl (.inr h)
        · exact .inl (.inl h)
        · exact .inr h
      · rintro ((h | h) | h)
        · exact .inr (.inl h)
        · exact .inl h
        · exact .inr (.inr h)

theorem mem_ofList (members : List α) (other : α) :
    other ∈ (ofList members).members ↔ other ∈ members := by
  rw [ofList, mem_insertAll]
  simp [empty]

end Ascending

end LifecycleGraph
