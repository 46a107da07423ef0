/-!
# Tables

A finite map that is kept as the list of its entries in the order of the keys,
one entry a key, so that its entries are found and listed in one order.
-/

set_option autoImplicit false

namespace LifecycleGraph

structure Table (κ ν : Type) where
  entries : List (κ × ν)
deriving Repr

namespace Table

variable {κ ν : Type} [LT κ] [DecidableLT κ] [DecidableEq κ]

def empty : Table κ ν := ⟨[]⟩

def isEmpty (table : Table κ ν) : Bool := table.entries.isEmpty

def size (table : Table κ ν) : Nat := table.entries.length

def keys (table : Table κ ν) : List κ := table.entries.map Prod.fst

def values (table : Table κ ν) : List ν := table.entries.map Prod.snd

def findIn (key : κ) : List (κ × ν) → Option ν
  | [] => none
  | (other, value) :: rest => if other = key then some value else findIn key rest

def find? (table : Table κ ν) (key : κ) : Option ν := findIn key table.entries

def contains (table : Table κ ν) (key : κ) : Bool := (table.find? key).isSome

/-- A list of entries with a value for a key, in the place of an old one or
before the first greater key. -/
def insertInto (key : κ) (value : ν) : List (κ × ν) → List (κ × ν)
  | [] => [(key, value)]
  | (other, old) :: rest =>
      if key = other then (other, value) :: rest
      else if key < other then (key, value) :: (other, old) :: rest
      else (other, old) :: insertInto key value rest

def insert (table : Table κ ν) (key : κ) (value : ν) : Table κ ν :=
  ⟨insertInto key value table.entries⟩

def erase (table : Table κ ν) (key : κ) : Table κ ν :=
  ⟨table.entries.filter fun entry => entry.1 ≠ key⟩

/-- Changes each value; a value that becomes nothing loses its entry. -/
def filterMapValues (change : ν → Option ν) (table : Table κ ν) : Table κ ν :=
  ⟨table.entries.filterMap fun entry => (change entry.2).map (entry.1, ·)⟩

def ofList (entries : List (κ × ν)) : Table κ ν :=
  entries.foldl (fun table entry => table.insert entry.1 entry.2) empty

theorem findIn_insertInto (key other : κ) (value : ν) (entries : List (κ × ν)) :
    findIn other (insertInto key value entries) =
      if key = other then some value else findIn other entries := by
  induction entries with
  | nil => simp [insertInto, findIn]
  | cons entry rest inductionHypothesis =>
      obtain ⟨first, old⟩ := entry
      unfold insertInto
      split
      · rename_i same
        subst same
        simp only [findIn]
        split <;> rfl
      · split
        · simp only [findIn]
        · simp only [findIn, inductionHypothesis]
          split
          · rename_i different _ same
            subst same
            simp [different]
          · rfl

theorem find?_insert (table : Table κ ν) (key other : κ) (value : ν) :
    (table.insert key value).find? other =
      if key = other then some value else table.find? other :=
  findIn_insertInto key other value table.entries

theorem find?_insert_eq_some_iff {table : Table κ ν} {key : κ} (new : table.find? key = none)
    (value : ν) (other : κ) (held : ν) :
    (table.insert key value).find? other = some held ↔
      key = other ∧ value = held ∨ table.find? other = some held := by
  rw [find?_insert]
  by_cases same : key = other
  · simp [← same, new]
  · simp [same]

omit [LT κ] [DecidableLT κ] in
theorem find?_erase (table : Table κ ν) (key other : κ) :
    (table.erase key).find? other = if key = other then none else table.find? other := by
  obtain ⟨entries⟩ := table
  unfold erase find?
  simp only
  induction entries with
  | nil => simp [findIn]
  | cons entry rest inductionHypothesis =>
      obtain ⟨first, value⟩ := entry
      by_cases same : first = key
      · subst same
        simp only [ne_eq, not_true_eq_false, decide_false, Bool.false_eq_true,
          not_false_eq_true, List.filter_cons_of_neg, inductionHypothesis, findIn]
        split <;> rfl
      · simp only [ne_eq, same, not_false_eq_true, decide_true, List.filter_cons_of_pos, findIn,
          inductionHypothesis]
        by_cases found : first = other
        · subst found
          simp [Ne.symm same]
        · simp [found]

end Table

end LifecycleGraph
