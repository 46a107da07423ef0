import LifecycleGraph.Collection.Table

/-!
# Rosters

The members of an owner under their names, in the order the names first came.
A member is stamped with its owner, its name and its slot when it is entered;
a name that comes again keeps its slot, and the new member takes it over.
The names lead to the slots through an index beside the members.
-/

set_option autoImplicit false

namespace LifecycleGraph

/-- Members that keep what they are stamped with. -/
class Stamped (α : Type) (ω : outParam Type) where
  stamp : ω → String → Nat → α → α

/-- The names of an index lead to the slots below a bound, one to each. -/
structure Table.Numbers (index : Table String Nat) (bound : Nat) : Prop where
  below : ∀ name slot, index.find? name = some slot → slot < bound
  apart : ∀ name other slot, index.find? name = some slot → index.find? other = some slot →
    name = other
  taken : ∀ slot, slot < bound → ∃ name, index.find? name = some slot

namespace Table.Numbers

theorem empty : (Table.empty : Table String Nat).Numbers 0 where
  below _ _ found := by cases found
  apart _ _ _ found := by cases found
  taken _ beyond := absurd beyond (Nat.not_lt_zero _)

/-- A new name leads to the next slot. -/
theorem insert {index : Table String Nat} {bound : Nat} (numbers : index.Numbers bound)
    {name : String} (new : index.find? name = none) :
    (index.insert name bound).Numbers (bound + 1) := by
  have found := Table.find?_insert_eq_some_iff new bound
  constructor
  · intro other slot isSlot
    rcases (found other slot).mp isSlot with ⟨-, rfl⟩ | isOld
    · exact Nat.lt_succ_self _
    · exact Nat.lt_succ_of_lt (numbers.below other slot isOld)
  · intro one other slot isOne isOther
    rcases (found one slot).mp isOne with ⟨rfl, rfl⟩ | oneOld <;>
      rcases (found other _).mp isOther with ⟨rfl, same⟩ | otherOld
    · rfl
    · exact absurd (numbers.below other _ otherOld) (Nat.lt_irrefl _)
    · exact absurd (numbers.below one _ oneOld) (same ▸ Nat.lt_irrefl _)
    · exact numbers.apart one other slot oneOld otherOld
  · intro slot within
    rcases Nat.lt_succ_iff_lt_or_eq.mp within with before | rfl
    · obtain ⟨other, isOld⟩ := numbers.taken slot before
      exact ⟨other, (found other slot).mpr (.inr isOld)⟩
    · exact ⟨name, (found name slot).mpr (.inl ⟨rfl, rfl⟩)⟩

end Table.Numbers

structure Roster (α ω : Type) where
  owner : ω
  members : List α
  index : Table String Nat
  numbered : index.Numbers members.length

namespace Roster

variable {α ω : Type}

def empty (owner : ω) : Roster α ω := ⟨owner, [], .empty, .empty⟩

def size (roster : Roster α ω) : Nat := roster.members.length

def isEmpty (roster : Roster α ω) : Bool := roster.members.isEmpty

def slotOf? (roster : Roster α ω) (name : String) : Option Nat := roster.index.find? name

def at? (roster : Roster α ω) (slot : Nat) : Option α := roster.members[slot]?

def find? (roster : Roster α ω) (name : String) : Option α :=
  (roster.slotOf? name).bind roster.at?

def contains (roster : Roster α ω) (name : String) : Bool := (roster.slotOf? name).isSome

/-- Changes members where they stand. -/
def withMembers (roster : Roster α ω) (members : List α)
    (same : members.length = roster.members.length) : Roster α ω :=
  ⟨roster.owner, members, roster.index, same ▸ roster.numbered⟩

def modifyAt (roster : Roster α ω) (slot : Nat) (change : α → α) : Roster α ω :=
  roster.withMembers (roster.members.modify slot change) (List.length_modify ..)

/-- Changes each member, by its slot. -/
def modifyEach (roster : Roster α ω) (change : Nat → α → α) : Roster α ω :=
  roster.withMembers (roster.members.mapIdx change) List.length_mapIdx

def modifyAll (roster : Roster α ω) (change : α → α) : Roster α ω :=
  roster.modifyEach fun _ => change

def clear (roster : Roster α ω) : Roster α ω := empty roster.owner

variable [Stamped α ω]

/-- Enters a member in a slot that is taken, in the place of the old one. -/
def replace (roster : Roster α ω) (name : String) (slot : Nat) (member : α) : Roster α ω :=
  roster.withMembers (roster.members.set slot (Stamped.stamp roster.owner name slot member))
    List.length_set

/-- Enters a member under a new name, in the next slot. -/
def append (roster : Roster α ω) (name : String) (member : α)
    (new : roster.slotOf? name = none) : Roster α ω :=
  ⟨roster.owner, roster.members ++ [Stamped.stamp roster.owner name roster.size member],
    roster.index.insert name roster.size,
    by rw [List.length_append]; exact roster.numbered.insert new⟩

/-- Enters a member under a name; the answer tells its slot. -/
def insert (roster : Roster α ω) (name : String) (member : α) : Roster α ω × Nat :=
  match known : roster.slotOf? name with
  | some slot => (roster.replace name slot member, slot)
  | none => (roster.append name member known, roster.size)

end Roster

end LifecycleGraph
