/-!
# Arenas

Values numbered in the order they were added.  A value that is taken out leaves
a hole, so that no number is given twice.
-/

set_option autoImplicit false

namespace LifecycleGraph

structure Arena (α : Type) where
  slots : List (Option α)
deriving Repr

namespace Arena

variable {α : Type}

def empty : Arena α := ⟨[]⟩

def next (arena : Arena α) : Nat := arena.slots.length

def find? (arena : Arena α) (index : Nat) : Option α := (arena.slots[index]?).join

def push (arena : Arena α) (value : α) : Arena α := ⟨arena.slots ++ [some value]⟩

def set (arena : Arena α) (index : Nat) (value : α) : Arena α :=
  ⟨arena.slots.set index (some value)⟩

/-- Changes the value of a number that has one. -/
def modify (arena : Arena α) (index : Nat) (change : α → α) : Arena α :=
  ⟨arena.slots.modify index (Option.map change)⟩

def erase (arena : Arena α) (index : Nat) : Arena α := ⟨arena.slots.set index none⟩

/-- The numbers and the values that are left, ascending. -/
def live (arena : Arena α) : List (Nat × α) :=
  arena.slots.zipIdx.filterMap fun (slot, index) => slot.map (index, ·)

def values (arena : Arena α) : List α := arena.slots.filterMap id

def size (arena : Arena α) : Nat := arena.values.length

end Arena

end LifecycleGraph
