import Mathlib.Order.Defs.Unbundled
import Mathlib.Data.List.Nodup
import Mathlib.Data.List.Pairwise
import LifecycleGraph.Collection.Arena
import LifecycleGraph.Collection.Ascending
import LifecycleGraph.Collection.Distinct
import LifecycleGraph.Collection.Roster
import LifecycleGraph.Collection.Table
import LifecycleGraph.Handle

/-!
# Laws of the collections

What each collection answers to a look-up after each of its changes, and the
orders that the changes keep: sets and tables stay ascending, arenas keep the
numbers of what is left.
-/

set_option autoImplicit false

namespace LifecycleGraph

/-! ## Orders of names and handles -/

instance strictTotalOrder_string : IsStrictTotalOrder String (· < ·) where

/-- A type whose values are told apart and ordered by a number. -/
theorem strictTotalOrder_of_number {κ : Type} [LT κ] (number : κ → Nat)
    (injective : ∀ a b, number a = number b → a = b)
    (ordered : ∀ a b : κ, a < b ↔ number a < number b) :
    IsStrictTotalOrder κ (· < ·) where
  irrefl a below := Nat.lt_irrefl _ ((ordered a a).mp below)
  trans a b c below above :=
    (ordered a c).mpr (Nat.lt_trans ((ordered a b).mp below) ((ordered b c).mp above))
  trichotomous a b notBelow notAbove := by
    have atMost := Nat.not_lt.mp fun below => notAbove ((ordered b a).mpr below)
    have atLeast := Nat.not_lt.mp fun below => notBelow ((ordered a b).mpr below)
    exact injective a b (Nat.le_antisymm atMost atLeast)

instance : IsStrictTotalOrder TypeId (· < ·) :=
  strictTotalOrder_of_number TypeId.index (fun _ _ => congrArg TypeId.mk) fun _ _ => Iff.rfl

instance : IsStrictTotalOrder NodeId (· < ·) :=
  strictTotalOrder_of_number NodeId.index (fun _ _ => congrArg NodeId.mk) fun _ _ => Iff.rfl

instance : IsStrictTotalOrder TagId (· < ·) :=
  strictTotalOrder_of_number TagId.index (fun _ _ => congrArg TagId.mk) fun _ _ => Iff.rfl

instance : IsStrictTotalOrder StateId (· < ·) :=
  strictTotalOrder_of_number StateId.index (fun _ _ => congrArg StateId.mk) fun _ _ => Iff.rfl

theorem PropertyId.lt_iff (a b : PropertyId) :
    a < b ↔ a.owner.index < b.owner.index ∨ a.owner.index = b.owner.index ∧ a.slot < b.slot :=
  Iff.rfl

instance : IsStrictTotalOrder PropertyId (· < ·) where
  irrefl a below := by
    rw [PropertyId.lt_iff] at below
    omega
  trans a b c below above := by
    rw [PropertyId.lt_iff] at below above ⊢
    omega
  trichotomous := by
    intro first second notBelow notAbove
    obtain ⟨⟨owner⟩, slot⟩ := first
    obtain ⟨⟨owner'⟩, slot'⟩ := second
    simp only [PropertyId.lt_iff] at notBelow notAbove
    have owners : owner = owner' := by omega
    have slots : slot = slot' := by omega
    rw [owners, slots]

/-! ## Last occurrences -/

section LastAmong

variable {α : Type} {passes : α → Prop}

/-- The member is in the list, and everything behind it passes. -/
def LastAmong (passes : α → Prop) (list : List α) (member : α) (later : List α) : Prop :=
  ∃ earlier, list = earlier ++ member :: later ∧ ∀ other ∈ later, passes other

theorem not_lastAmong_nil (member : α) (later : List α) :
    ¬LastAmong passes [] member later := by
  rintro ⟨earlier, same, -⟩
  exact absurd same.symm (List.append_ne_nil_of_right_ne_nil earlier (List.cons_ne_nil _ later))

theorem lastAmong_concat_iff (list : List α) (last member : α) (later : List α) :
    LastAmong passes (list ++ [last]) member later ↔
      last = member ∧ later = [] ∨
        ∃ others, later = others ++ [last] ∧ passes last ∧ LastAmong passes list member others := by
  constructor
  · rintro ⟨earlier, same, pass⟩
    rcases List.eq_nil_or_concat' later with rfl | ⟨others, other, rfl⟩
    · obtain ⟨-, isLast⟩ := List.append_inj' same rfl
      exact .inl ⟨List.head_eq_of_cons_eq isLast, rfl⟩
    · rw [← List.cons_append, ← List.append_assoc] at same
      obtain ⟨before, isLast⟩ := List.append_inj' same rfl
      obtain rfl := List.head_eq_of_cons_eq isLast
      exact .inr ⟨others, rfl, pass last (by simp), earlier, before, fun other isOther =>
        pass other (List.mem_append_left _ isOther)⟩
  · rintro (⟨rfl, rfl⟩ | ⟨others, rfl, passLast, earlier, rfl, pass⟩)
    · exact ⟨list, rfl, by simp⟩
    · refine ⟨earlier, by simp, fun other isOther => ?_⟩
      rcases List.mem_append.mp isOther with inOthers | isLast
      · exact pass other inOthers
      · exact List.mem_singleton.mp isLast ▸ passLast

end LastAmong

/-! ## Updates of single places -/

section Updates

variable {σ β κ ν : Type} [DecidableEq κ] {read : σ → κ → Option ν} {step : σ → β → σ}
  {key : β → κ} {change : β → ν → ν}

/-- Each update changes what is read at its own place. -/
def Updates (read : σ → κ → Option ν) (step : σ → β → σ) (key : β → κ) (change : β → ν → ν) :
    Prop :=
  ∀ state update place, read (step state update) place =
    if place = key update then (read state place).map (change update) else read state place

namespace Updates

variable (updates : Updates read step key change) {list : List β}

include updates

theorem read_foldl_of_not_mem {place : κ} (absent : place ∉ list.map key) (state : σ) :
    read (list.foldl step state) place = read state place := by
  induction list generalizing state with
  | nil => rfl
  | cons update rest inductionHypothesis =>
      rw [List.map_cons, List.mem_cons, not_or] at absent
      rw [List.foldl_cons, inductionHypothesis absent.2, updates, if_neg absent.1]

theorem read_foldl_eq_none {state : σ} {place : κ} (nothing : read state place = none) :
    read (list.foldl step state) place = none := by
  induction list generalizing state with
  | nil => exact nothing
  | cons update rest inductionHypothesis =>
      refine inductionHypothesis ?_
      rw [updates, nothing, Option.map_none, ite_self]

/-- Updates of different places do not meet. -/
theorem read_foldl_of_mem (nodup : (list.map key).Nodup) {update : β} (member : update ∈ list)
    (state : σ) :
    read (list.foldl step state) (key update) = (read state (key update)).map (change update) := by
  induction list generalizing state with
  | nil => cases member
  | cons first rest inductionHypothesis =>
      obtain ⟨different, nodup⟩ := List.nodup_cons.mp nodup
      rw [List.foldl_cons]
      rcases List.mem_cons.mp member with rfl | inRest
      · rw [updates.read_foldl_of_not_mem different, updates, if_pos rfl]
      · have elsewhere : key update ≠ key first := fun same =>
          different (same ▸ List.mem_map_of_mem inRest)
        rw [inductionHypothesis nodup inRest, updates, if_neg elsewhere]

/-- Updates that leave what they have changed are made once. -/
theorem read_foldl_again (nodup : (list.map key).Nodup)
    (settles : ∀ update value, change update (change update value) = change update value)
    (state : σ) (place : κ) :
    read (list.foldl step (list.foldl step state)) place = read (list.foldl step state) place := by
  by_cases known : place ∈ list.map key
  · obtain ⟨update, member, rfl⟩ := List.mem_map.mp known
    rw [updates.read_foldl_of_mem nodup member, updates.read_foldl_of_mem nodup member,
      Option.map_map]
    exact congrArg (Option.map · _) (funext (settles update))
  · exact updates.read_foldl_of_not_mem known _

end Updates

end Updates

/-! ## Arenas -/

namespace Arena

variable {α : Type}

@[simp] theorem find?_empty (index : Nat) : (empty : Arena α).find? index = none := rfl

theorem lt_next_of_find? {arena : Arena α} {index : Nat} {value : α}
    (found : arena.find? index = some value) : index < arena.next := by
  rw [find?] at found
  by_contra beyond
  rw [List.getElem?_eq_none (Nat.not_lt.mp beyond)] at found
  cases found

theorem find?_of_next_le {arena : Arena α} {index : Nat} (beyond : arena.next ≤ index) :
    arena.find? index = none := by
  cases found : arena.find? index with
  | none => rfl
  | some value => exact absurd (lt_next_of_find? found) (Nat.not_lt.mpr beyond)

@[simp] theorem next_push (arena : Arena α) (value : α) :
    (arena.push value).next = arena.next + 1 := by
  simp [next, push]

@[simp] theorem next_modify (arena : Arena α) (index : Nat) (change : α → α) :
    (arena.modify index change).next = arena.next := by
  simp [next, modify]

@[simp] theorem next_erase (arena : Arena α) (index : Nat) :
    (arena.erase index).next = arena.next := by
  simp [next, erase]

theorem find?_push (arena : Arena α) (value : α) (index : Nat) :
    (arena.push value).find? index =
      if index = arena.next then some value else arena.find? index := by
  unfold find? push next
  rcases Nat.lt_trichotomy index arena.slots.length with below | rfl | above
  · rw [List.getElem?_append_left below, if_neg (Nat.ne_of_lt below)]
  · simp
  · rw [if_neg (Nat.ne_of_gt above), List.getElem?_eq_none (Nat.le_of_lt above),
      List.getElem?_eq_none (by simp only [List.length_append, List.length_singleton]; omega)]

theorem find?_modify (arena : Arena α) (index other : Nat) (change : α → α) :
    (arena.modify index change).find? other =
      if other = index then (arena.find? other).map change else arena.find? other := by
  unfold find? modify
  simp only [List.getElem?_modify]
  by_cases same : other = index
  · subst same
    cases arena.slots[other]? <;> simp
  · simp [same, Ne.symm same]

theorem find?_erase (arena : Arena α) (index other : Nat) :
    (arena.erase index).find? other = if other = index then none else arena.find? other := by
  unfold find? erase
  by_cases same : other = index
  · subst same
    simp only [List.getElem?_set, if_true]
    split <;> rfl
  · simp [same, Ne.symm same]

/-- Arenas in which the same is found are the same. -/
theorem ext_find? {arena other : Arena α} (next : arena.next = other.next)
    (same : ∀ index, arena.find? index = other.find? index) : arena = other := by
  refine congrArg Arena.mk (List.ext_getElem next fun index within withinOther => ?_)
  have found := same index
  rwa [find?, find?, List.getElem?_eq_getElem within, List.getElem?_eq_getElem withinOther,
    Option.join_some, Option.join_some] at found

theorem mem_values_iff (arena : Arena α) (value : α) :
    value ∈ arena.values ↔ ∃ index, arena.find? index = some value := by
  rw [values, List.mem_filterMap]
  constructor
  · intro given
    obtain ⟨slot, member, rfl⟩ := given
    obtain ⟨index, atIndex⟩ := List.mem_iff_getElem?.mp member
    exact ⟨index, Option.join_eq_some_iff.mpr atIndex⟩
  · intro given
    obtain ⟨index, found⟩ := given
    exact ⟨some value, List.mem_of_getElem? (Option.join_eq_some_iff.mp found), rfl⟩

/-- Values of which something different is read have different numbers only. -/
theorem index_eq_of_nodup {β : Type} (arena : Arena α) (read : α → β)
    (nodup : (arena.values.map read).Nodup) {index other : Nat} {value twin : α}
    (found : arena.find? index = some value) (isTwin : arena.find? other = some twin)
    (same : read value = read twin) : index = other := by
  have apart : arena.slots.Pairwise fun slot later => ∀ value ∈ slot, ∀ twin ∈ later,
      read value ≠ read twin := by
    rw [values, List.Nodup, List.pairwise_map, List.pairwise_filterMap] at nodup
    exact nodup
  have atIndex := Option.join_eq_some_iff.mp found
  have atOther := Option.join_eq_some_iff.mp isTwin
  rw [List.pairwise_iff_getElem] at apart
  obtain ⟨below, isSlot⟩ := List.getElem?_eq_some_iff.mp atIndex
  obtain ⟨otherBelow, isOther⟩ := List.getElem?_eq_some_iff.mp atOther
  rcases Nat.lt_trichotomy index other with first | equal | second
  · exact absurd same (apart index other below otherBelow first value isSlot twin isOther)
  · exact equal
  · exact absurd same.symm (apart other index otherBelow below second twin isOther value isSlot)

end Arena

/-! ## Ascending sets -/

namespace Ascending

variable {α : Type} [LT α]

def Sorted (set : Ascending α) : Prop := set.members.Pairwise (· < ·)

theorem Sorted.nodup [IsStrictTotalOrder α (· < ·)] {set : Ascending α} (sorted : set.Sorted) :
    set.members.Nodup := by
  refine List.Pairwise.imp ?_ sorted
  intro a b below same
  obtain rfl := same
  exact Std.Irrefl.irrefl (r := fun x y : α => x < y) a below

theorem sorted_empty : (empty : Ascending α).Sorted := .nil

variable [DecidableLT α] [DecidableEq α]

omit [DecidableLT α] in
theorem Sorted.erase {set : Ascending α} (sorted : set.Sorted) (member : α) :
    (set.erase member).Sorted :=
  sorted.filter _

omit [DecidableLT α] in
theorem Sorted.difference {set : Ascending α} (sorted : set.Sorted) (other : Ascending α) :
    (set.difference other).Sorted :=
  sorted.filter _

omit [LT α] [DecidableLT α] in
theorem mem_difference (set other : Ascending α) (member : α) :
    member ∈ (set.difference other).members ↔ member ∈ set.members ∧ member ∉ other.members := by
  simp [difference, contains]

theorem Sorted.insert [IsStrictTotalOrder α (· < ·)] {set : Ascending α} (sorted : set.Sorted)
    (member : α) : (set.insert member).Sorted := by
  obtain ⟨members⟩ := set
  unfold Sorted Ascending.insert at *
  induction members with
  | nil => simp [insertInto]
  | cons first rest inductionHypothesis =>
      obtain ⟨belowRest, restSorted⟩ := List.pairwise_cons.mp sorted
      rw [insertInto]
      split
      · exact sorted
      · rename_i different
        split
        · rename_i below
          refine List.pairwise_cons.mpr ⟨fun other member => ?_, sorted⟩
          rcases List.mem_cons.mp member with rfl | inRest
          · exact below
          · exact IsTrans.trans (r := fun x y : α => x < y) _ _ _ below (belowRest other inRest)
        · rename_i notBelow
          refine List.pairwise_cons.mpr ⟨fun other inserted => ?_, inductionHypothesis restSorted⟩
          rcases (mem_insertInto member other rest).mp inserted with rfl | inRest
          · by_contra notAbove
            exact different
              (Std.Trichotomous.trichotomous (r := fun x y : α => x < y) _ _ notBelow notAbove)
          · exact belowRest other inRest

theorem Sorted.insertAll [IsStrictTotalOrder α (· < ·)] {set : Ascending α} (sorted : set.Sorted)
    (members : List α) : (set.insertAll members).Sorted := by
  rw [Ascending.insertAll]
  induction members generalizing set with
  | nil => exact sorted
  | cons first rest inductionHypothesis => exact inductionHypothesis (sorted.insert first)

theorem sorted_ofList [IsStrictTotalOrder α (· < ·)] (members : List α) :
    (ofList members).Sorted :=
  sorted_empty.insertAll members

theorem length_insertInto_le (member : α) (list : List α) :
    (insertInto member list).length ≤ list.length + 1 := by
  induction list with
  | nil => simp [insertInto]
  | cons first rest inductionHypothesis =>
      rw [insertInto]
      split
      · simp
      · split <;> simp [inductionHypothesis]

theorem length_insertAll_le (members : List α) (set : Ascending α) :
    (set.insertAll members).members.length ≤ set.members.length + members.length := by
  rw [insertAll]
  induction members generalizing set with
  | nil => simp
  | cons first rest inductionHypothesis =>
      have inserted : (set.insert first).members.length ≤ set.members.length + 1 :=
        length_insertInto_le first set.members
      have others := inductionHypothesis (set.insert first)
      simp only [List.foldl_cons, List.length_cons]
      omega

theorem length_ofList_le (members : List α) :
    (ofList members).members.length ≤ members.length := by
  have bound := length_insertAll_le members empty
  rw [show (empty : Ascending α).members.length = 0 from rfl, Nat.zero_add] at bound
  exact bound

end Ascending

/-! ## Tables -/

namespace Table

variable {κ ν : Type} [LT κ]

/-- The keys ascend, so that there is one entry a key. -/
def Sorted (table : Table κ ν) : Prop := table.entries.Pairwise (·.1 < ·.1)

theorem sorted_empty : (empty : Table κ ν).Sorted := .nil

variable [DecidableEq κ]

omit [LT κ] in
@[simp] theorem find?_empty (key : κ) : (empty : Table κ ν).find? key = none := rfl

omit [LT κ] in
theorem findIn_mem {key : κ} {value : ν} {entries : List (κ × ν)}
    (found : findIn key entries = some value) : (key, value) ∈ entries := by
  induction entries with
  | nil => cases found
  | cons entry rest inductionHypothesis =>
      obtain ⟨first, held⟩ := entry
      rw [findIn] at found
      split at found
      · rename_i same
        cases found
        simp [same]
      · exact List.mem_cons_of_mem _ (inductionHypothesis found)

omit [LT κ] in
theorem isSome_findIn_of_mem {key : κ} {value : ν} {entries : List (κ × ν)}
    (member : (key, value) ∈ entries) : (findIn key entries).isSome = true := by
  induction entries with
  | nil => cases member
  | cons entry rest inductionHypothesis =>
      obtain ⟨first, held⟩ := entry
      rw [findIn]
      split
      · rfl
      · rename_i different
        rcases List.mem_cons.mp member with same | inRest
        · exact absurd (congrArg Prod.fst same).symm different
        · exact inductionHypothesis inRest

omit [LT κ] in
theorem isSome_find?_of_mem_keys {table : Table κ ν} {key : κ} (member : key ∈ table.keys) :
    (table.find? key).isSome = true := by
  obtain ⟨entry, isEntry, rfl⟩ := List.mem_map.mp member
  exact isSome_findIn_of_mem isEntry

omit [LT κ] in
theorem findIn_of_mem {key : κ} {value : ν} {entries : List (κ × ν)}
    (distinct : (entries.map Prod.fst).Nodup) (member : (key, value) ∈ entries) :
    findIn key entries = some value := by
  induction entries with
  | nil => cases member
  | cons entry rest inductionHypothesis =>
      obtain ⟨absent, restDistinct⟩ := List.nodup_cons.mp distinct
      obtain ⟨first, held⟩ := entry
      rcases List.mem_cons.mp member with same | inRest
      · cases same
        simp [findIn]
      · have different : first ≠ key := by
          intro same
          exact absent (List.mem_map.mpr ⟨(key, value), inRest, same.symm⟩)
        simp only [findIn, different, if_false]
        exact inductionHypothesis restDistinct inRest

omit [LT κ] in
theorem findIn_append (key : κ) (entries others : List (κ × ν)) :
    findIn key (entries ++ others) = (findIn key entries).or (findIn key others) := by
  induction entries with
  | nil => rfl
  | cons entry rest inductionHypothesis =>
      obtain ⟨first, held⟩ := entry
      rw [List.cons_append, findIn, findIn, inductionHypothesis]
      split <;> rfl

omit [LT κ] in
theorem findIn_of_not_mem {key : κ} {entries : List (κ × ν)}
    (absent : key ∉ entries.map Prod.fst) : findIn key entries = none := by
  cases found : findIn key entries with
  | none => rfl
  | some value => exact absurd (List.mem_map.mpr ⟨_, findIn_mem found, rfl⟩) absent

omit [DecidableEq κ] in
theorem Sorted.nodup_keys [IsStrictTotalOrder κ (· < ·)] {table : Table κ ν}
    (sorted : table.Sorted) : (table.entries.map Prod.fst).Nodup := by
  refine List.pairwise_map.mpr (List.Pairwise.imp (fun below same => ?_) sorted)
  rw [same] at below
  exact Std.Irrefl.irrefl (r := fun x y : κ => x < y) _ below

theorem Sorted.mem_entries_iff [IsStrictTotalOrder κ (· < ·)] {table : Table κ ν}
    (sorted : table.Sorted) (key : κ) (value : ν) :
    (key, value) ∈ table.entries ↔ table.find? key = some value :=
  ⟨findIn_of_mem sorted.nodup_keys, findIn_mem⟩

omit [DecidableEq κ] in
theorem Sorted.nodup_entries [IsStrictTotalOrder κ (· < ·)] {table : Table κ ν}
    (sorted : table.Sorted) : table.entries.Nodup := sorted.nodup_keys.of_map

theorem Sorted.erase {table : Table κ ν} (sorted : table.Sorted) (key : κ) :
    (table.erase key).Sorted :=
  sorted.filter _

/-- Tables in which the same is found have the same entries. -/
theorem Sorted.perm_entries [IsStrictTotalOrder κ (· < ·)] {table other : Table κ ν}
    (sorted : table.Sorted) (otherSorted : other.Sorted)
    (same : ∀ key, table.find? key = other.find? key) : table.entries.Perm other.entries := by
  refine (List.perm_ext_iff_of_nodup sorted.nodup_entries otherSorted.nodup_entries).mpr ?_
  intro entry
  rw [sorted.mem_entries_iff entry.1 entry.2, otherSorted.mem_entries_iff entry.1 entry.2, same]

/-- The entry of a key stands beside those of the others. -/
theorem Sorted.perm_erase [IsStrictTotalOrder κ (· < ·)] {table : Table κ ν}
    (sorted : table.Sorted) {key : κ} {value : ν} (found : table.find? key = some value) :
    table.entries.Perm ((key, value) :: (table.erase key).entries) := by
  have apart : (key, value) ∉ (table.erase key).entries := by
    intro member
    have stays := List.of_mem_filter member
    simp at stays
  refine (List.perm_ext_iff_of_nodup sorted.nodup_entries
    (List.nodup_cons.mpr ⟨apart, (sorted.erase key).nodup_entries⟩)).mpr fun entry => ?_
  obtain ⟨first, held⟩ := entry
  rw [List.mem_cons, sorted.mem_entries_iff, (sorted.erase key).mem_entries_iff, find?_erase]
  by_cases same : key = first
  · subst same
    simp [found, eq_comm]
  · simp [same, eq_comm]

omit [DecidableEq κ] in
theorem Sorted.filterMapValues {table : Table κ ν} (sorted : table.Sorted)
    (change : ν → Option ν) : (table.filterMapValues change).Sorted := by
  refine sorted.filterMap _ ?_
  intro a b below changedA isA changedB isB
  simp only [Option.map_eq_some_iff] at isA isB
  obtain ⟨_, -, rfl⟩ := isA
  obtain ⟨_, -, rfl⟩ := isB
  exact below

theorem Sorted.find?_filterMapValues [IsStrictTotalOrder κ (· < ·)] {table : Table κ ν}
    (sorted : table.Sorted) (change : ν → Option ν) (key : κ) :
    (table.filterMapValues change).find? key = (table.find? key).bind change := by
  have entryIff (value : ν) :
      (table.filterMapValues change).find? key = some value ↔
        (table.find? key).bind change = some value := by
    rw [← (sorted.filterMapValues change).mem_entries_iff, Option.bind_eq_some_iff]
    simp only [Table.filterMapValues, List.mem_filterMap, Option.map_eq_some_iff, Prod.mk.injEq]
    constructor
    · intro given
      obtain ⟨⟨other, held⟩, isEntry, changed, isChanged, rfl, rfl⟩ := given
      exact ⟨held, (sorted.mem_entries_iff other held).mp isEntry, isChanged⟩
    · intro given
      obtain ⟨held, isHeld, isChanged⟩ := given
      exact ⟨(key, held), (sorted.mem_entries_iff key held).mpr isHeld, value, isChanged, rfl, rfl⟩
  exact Option.ext entryIff

variable [DecidableLT κ]

theorem fst_mem_insertInto {key : κ} {value : ν} {entries : List (κ × ν)} {entry : κ × ν}
    (member : entry ∈ insertInto key value entries) :
    entry.1 = key ∨ ∃ other ∈ entries, other.1 = entry.1 := by
  induction entries with
  | nil => simp_all [insertInto]
  | cons first rest inductionHypothesis =>
      rw [insertInto] at member
      split at member
      · rcases List.mem_cons.mp member with rfl | inRest
        · exact .inr ⟨first, List.mem_cons_self .., rfl⟩
        · exact .inr ⟨entry, List.mem_cons_of_mem _ inRest, rfl⟩
      · split at member
        · rcases List.mem_cons.mp member with rfl | inEntries
          · exact .inl rfl
          · exact .inr ⟨entry, inEntries, rfl⟩
        · rcases List.mem_cons.mp member with rfl | inserted
          · exact .inr ⟨first, List.mem_cons_self .., rfl⟩
          · rcases inductionHypothesis inserted with same | ⟨other, inRest, same⟩
            · exact .inl same
            · exact .inr ⟨other, List.mem_cons_of_mem _ inRest, same⟩

theorem Sorted.insert [IsStrictTotalOrder κ (· < ·)] {table : Table κ ν} (sorted : table.Sorted)
    (key : κ) (value : ν) : (table.insert key value).Sorted := by
  obtain ⟨entries⟩ := table
  unfold Sorted Table.insert at *
  induction entries with
  | nil => simp [insertInto]
  | cons first rest inductionHypothesis =>
      obtain ⟨belowRest, restSorted⟩ := List.pairwise_cons.mp sorted
      rw [insertInto]
      split
      · exact List.pairwise_cons.mpr ⟨belowRest, restSorted⟩
      · rename_i different
        split
        · rename_i below
          refine List.pairwise_cons.mpr ⟨fun other member => ?_, sorted⟩
          rcases List.mem_cons.mp member with rfl | inRest
          · exact below
          · exact IsTrans.trans (r := fun x y : κ => x < y) _ _ _ below (belowRest other inRest)
        · rename_i notBelow
          refine List.pairwise_cons.mpr ⟨fun other inserted => ?_, inductionHypothesis restSorted⟩
          rcases fst_mem_insertInto inserted with same | ⟨old, inRest, same⟩
          · by_contra notAbove
            rw [same] at notAbove
            exact different
              (Std.Trichotomous.trichotomous (r := fun x y : κ => x < y) _ _ notBelow notAbove)
          · exact same ▸ belowRest old inRest

theorem sorted_ofList [IsStrictTotalOrder κ (· < ·)] (entries : List (κ × ν)) :
    (ofList entries).Sorted := by
  have inserted (rest : List (κ × ν)) {table : Table κ ν} (sorted : table.Sorted) :
      (rest.foldl (fun table entry => table.insert entry.1 entry.2) table).Sorted := by
    induction rest generalizing table with
    | nil => exact sorted
    | cons entry rest inductionHypothesis => exact inductionHypothesis (sorted.insert _ _)
  exact inserted entries sorted_empty

/-- A key above all others comes last. -/
theorem insertInto_of_above [IsStrictTotalOrder κ (· < ·)] {key : κ} {entries : List (κ × ν)}
    (above : ∀ entry ∈ entries, entry.1 < key) (value : ν) :
    insertInto key value entries = entries ++ [(key, value)] := by
  induction entries with
  | nil => rfl
  | cons first rest inductionHypothesis =>
      have below : first.1 < key := above first (List.mem_cons_self ..)
      have different : key ≠ first.1 := by
        intro same
        rw [same] at below
        exact Std.Irrefl.irrefl (r := fun x y : κ => x < y) _ below
      have notBelow : ¬ key < first.1 := fun reverse =>
        Std.Irrefl.irrefl (r := fun x y : κ => x < y) _
          (IsTrans.trans (r := fun x y : κ => x < y) _ _ _ below reverse)
      simp only [insertInto, different, notBelow, if_false, List.cons_append]
      rw [inductionHypothesis fun entry member => above entry (List.mem_cons_of_mem _ member)]

/-- The entries of a table make the table again. -/
theorem Sorted.ofList_entries [IsStrictTotalOrder κ (· < ·)] {table : Table κ ν}
    (sorted : table.Sorted) : ofList table.entries = table := by
  have inserted (done rest : List (κ × ν)) (sorted : (done ++ rest).Pairwise (·.1 < ·.1)) :
      rest.foldl (fun (table : Table κ ν) entry => table.insert entry.1 entry.2) ⟨done⟩ =
        ⟨done ++ rest⟩ := by
    induction rest generalizing done with
    | nil => rw [List.append_nil, List.foldl_nil]
    | cons entry rest inductionHypothesis =>
        have above : ∀ other ∈ done, other.1 < entry.1 := fun other member =>
          (List.pairwise_append.mp sorted).2.2 other member entry (List.mem_cons_self ..)
        have step : (⟨done⟩ : Table κ ν).insert entry.1 entry.2 = ⟨done ++ [entry]⟩ :=
          congrArg Table.mk (insertInto_of_above above entry.2)
        rw [List.foldl_cons, step, inductionHypothesis _ (by simpa using sorted),
          List.append_assoc, List.singleton_append]
  exact inserted [] table.entries sorted

end Table

/-! ## Rosters -/

namespace Roster

variable {α ω : Type}

@[simp] theorem at?_empty (owner : ω) (slot : Nat) :
    (empty owner : Roster α ω).at? slot = none := rfl

theorem isSome_at?_iff (roster : Roster α ω) (slot : Nat) :
    (roster.at? slot).isSome = true ↔ slot < roster.size := by
  simp [at?, size]

theorem lt_size_of_at? {roster : Roster α ω} {slot : Nat} {member : α}
    (found : roster.at? slot = some member) : slot < roster.size :=
  (roster.isSome_at?_iff slot).mp (by rw [found]; rfl)

theorem lt_size_of_slotOf? {roster : Roster α ω} {name : String} {slot : Nat}
    (found : roster.slotOf? name = some slot) : slot < roster.size :=
  roster.numbered.below name slot found

/-- Different names have different slots. -/
theorem eq_of_slotOf? {roster : Roster α ω} {name other : String} {slot : Nat}
    (known : roster.slotOf? name = some slot) (also : roster.slotOf? other = some slot) :
    name = other :=
  roster.numbered.apart name other slot known also

theorem exists_at?_of_find? {roster : Roster α ω} {name : String} {member : α}
    (found : roster.find? name = some member) : ∃ slot, roster.at? slot = some member := by
  obtain ⟨slot, -, held⟩ := Option.bind_eq_some_iff.mp found
  exact ⟨slot, held⟩

theorem mem_members_iff (roster : Roster α ω) (member : α) :
    member ∈ roster.members ↔ ∃ slot, roster.at? slot = some member :=
  List.mem_iff_getElem?

@[simp] theorem size_modifyAt (roster : Roster α ω) (slot : Nat) (change : α → α) :
    (roster.modifyAt slot change).size = roster.size :=
  List.length_modify ..

@[simp] theorem slotOf?_modifyAt (roster : Roster α ω) (slot : Nat) (change : α → α)
    (name : String) : (roster.modifyAt slot change).slotOf? name = roster.slotOf? name := rfl

theorem at?_modifyAt (roster : Roster α ω) (slot other : Nat) (change : α → α) :
    (roster.modifyAt slot change).at? other =
      if other = slot then (roster.at? other).map change else roster.at? other := by
  simp only [at?, modifyAt, withMembers, List.getElem?_modify]
  by_cases same : other = slot
  · subst same
    cases roster.members[other]? <;> simp
  · simp [same, Ne.symm same]

theorem at?_modifyEach (roster : Roster α ω) (change : Nat → α → α) (slot : Nat) :
    (roster.modifyEach change).at? slot = (roster.at? slot).map (change slot) :=
  List.getElem?_mapIdx

theorem members_modifyAll (roster : Roster α ω) (change : α → α) :
    (roster.modifyAll change).members = roster.members.map change :=
  List.ext_getElem? fun _ => (at?_modifyEach ..).trans List.getElem?_map.symm

/-- Rosters with the same index and the same members are the same. -/
theorem ext_at? {roster other : Roster α ω} (owner : roster.owner = other.owner)
    (index : roster.index = other.index) (same : ∀ slot, roster.at? slot = other.at? slot) :
    roster = other := by
  obtain ⟨ownerOf, members, names, numbered⟩ := roster
  obtain ⟨_, _, _, _⟩ := other
  obtain rfl : members = _ := List.ext_getElem? same
  cases owner
  cases index
  rfl

/-! ### Names in the order of their slots -/

/-- The name that leads to a slot. -/
def nameAt? (roster : Roster α ω) (slot : Nat) : Option String :=
  roster.index.keys.find? fun name => roster.slotOf? name == some slot

def names (roster : Roster α ω) : List String :=
  (List.range roster.size).map fun slot => (roster.nameAt? slot).getD ""

/-- The members with the names that lead to them. -/
def entries (roster : Roster α ω) : List (String × α) := roster.names.zip roster.members

theorem length_names (roster : Roster α ω) : roster.names.length = roster.size := by
  rw [names, List.length_map, List.length_range]

theorem nameAt?_of_slotOf? {roster : Roster α ω} {name : String} {slot : Nat}
    (known : roster.slotOf? name = some slot) : roster.nameAt? slot = some name := by
  have isKey : name ∈ roster.index.keys := List.mem_map.mpr ⟨_, Table.findIn_mem known, rfl⟩
  cases found : roster.nameAt? slot with
  | none =>
      exact absurd (by simpa using known) (List.find?_eq_none.mp found name isKey)
  | some other =>
      have leads : roster.slotOf? other = some slot := by simpa using List.find?_some found
      rw [roster.numbered.apart name other slot known leads]

/-- A name stands where it leads to. -/
theorem getElem?_names_iff (roster : Roster α ω) (slot : Nat) (name : String) :
    roster.names[slot]? = some name ↔ roster.slotOf? name = some slot := by
  rw [names, List.getElem?_map]
  constructor
  · intro named
    obtain ⟨other, isSlot, isName⟩ := Option.map_eq_some_iff.mp named
    obtain ⟨within, rfl⟩ := List.getElem?_eq_some_iff.mp isSlot
    rw [List.getElem_range] at isName
    obtain ⟨known, leads⟩ := roster.numbered.taken slot (by simpa [size] using within)
    rw [nameAt?_of_slotOf? leads] at isName
    exact isName ▸ leads
  · intro known
    rw [List.getElem?_range (lt_size_of_slotOf? known), Option.map_some, nameAt?_of_slotOf? known,
      Option.getD_some]

/-- The names are different from each other. -/
theorem nodup_names (roster : Roster α ω) : roster.names.Nodup := by
  rw [List.nodup_iff_injective_getElem]
  intro one other same
  have first := (roster.getElem?_names_iff one.val _).mp (List.getElem?_eq_getElem one.isLt)
  have second := (roster.getElem?_names_iff other.val _).mp (List.getElem?_eq_getElem other.isLt)
  exact Fin.ext (Option.some.inj (first.symm.trans ((congrArg roster.slotOf? same).trans second)))

theorem names_eq_of_slotOf? {roster : Roster α ω} {names : List String}
    (leads : ∀ slot name, names[slot]? = some name ↔ roster.slotOf? name = some slot) :
    roster.names = names :=
  List.ext_getElem? fun slot => Option.ext fun name => by
    rw [roster.getElem?_names_iff, leads]

theorem slotOf?_eq (roster : Roster α ω) (name : String) :
    roster.slotOf? name = roster.names.findIdx? (· == name) := by
  refine Option.ext fun slot => ?_
  rw [← roster.getElem?_names_iff, List.findIdx?_eq_some_iff_getElem]
  constructor
  · intro named
    obtain ⟨within, isName⟩ := List.getElem?_eq_some_iff.mp named
    refine ⟨within, by simpa using isName, fun other before same => ?_⟩
    have isOther : roster.names[other] = name := by simpa using same
    exact Nat.ne_of_lt before
      ((roster.nodup_names.getElem_inj_iff).mp (isOther.trans isName.symm))
  · rintro ⟨within, isName, -⟩
    rw [List.getElem?_eq_getElem within]
    simpa using isName

theorem slotOf?_eq_none_iff (roster : Roster α ω) (name : String) :
    roster.slotOf? name = none ↔ name ∉ roster.names := by
  rw [slotOf?_eq, List.findIdx?_eq_none_iff]
  constructor
  · intro unlike member
    simpa using unlike name member
  · rintro absent other member
    exact beq_eq_false_iff_ne.mpr fun same => absent (same ▸ member)

@[simp] theorem names_modifyAt (roster : Roster α ω) (slot : Nat) (change : α → α) :
    (roster.modifyAt slot change).names = roster.names :=
  names_eq_of_slotOf? fun other name => by rw [slotOf?_modifyAt, getElem?_names_iff]

/-- The names are different, and each member knows its own. -/
structure Keyed (nameOf : α → String) (roster : Roster α ω) : Prop where
  distinct : roster.names.Nodup
  named : roster.members.map nameOf = roster.names

section Keyed

variable {nameOf : α → String} {roster : Roster α ω}

theorem keyed_empty (nameOf : α → String) (owner : ω) :
    Keyed nameOf (empty owner : Roster α ω) :=
  ⟨List.nodup_nil, rfl⟩

theorem Keyed.name_eq (keyed : Keyed nameOf roster) {slot : Nat} {member : α}
    (found : roster.at? slot = some member) : roster.names[slot]? = some (nameOf member) := by
  rw [← keyed.named, List.getElem?_map]
  exact congrArg (Option.map nameOf) found

/-- The name of a member leads back to its slot. -/
theorem Keyed.slotOf?_eq (keyed : Keyed nameOf roster) {slot : Nat} {member : α}
    (found : roster.at? slot = some member) : roster.slotOf? (nameOf member) = some slot :=
  (roster.getElem?_names_iff slot _).mp (keyed.name_eq found)

/-- The slot that a name leads to has the member of that name. -/
theorem Keyed.name_of_slotOf? (keyed : Keyed nameOf roster) {name : String} {slot : Nat}
    {member : α} (given : roster.slotOf? name = some slot)
    (found : roster.at? slot = some member) : nameOf member = name :=
  Option.some.inj
    ((keyed.name_eq found).symm.trans ((roster.getElem?_names_iff slot name).mpr given))

theorem Keyed.modifyAt (keyed : Keyed nameOf roster) (slot : Nat) {change : α → α}
    (same : ∀ member, nameOf (change member) = nameOf member) :
    Keyed nameOf (roster.modifyAt slot change) where
  distinct := nodup_names _
  named := by
    rw [names_modifyAt, ← keyed.named]
    refine List.ext_getElem? fun other => ?_
    simp only [Roster.modifyAt, withMembers, List.getElem?_map, List.getElem?_modify]
    cases roster.members[other]? with
    | none => rfl
    | some member =>
        by_cases here : slot = other
        · simp [here, same]
        · simp [here]

end Keyed

variable [Stamped α ω]

theorem insert_of_known {roster : Roster α ω} {name : String} {slot : Nat} (member : α)
    (known : roster.slotOf? name = some slot) :
    roster.insert name member = (roster.replace name slot member, slot) := by
  unfold insert
  split
  · rename_i taken isSlot
    cases known.symm.trans isSlot
    rfl
  · rename_i new
    cases known.symm.trans new

theorem insert_of_new {roster : Roster α ω} {name : String} (member : α)
    (new : roster.slotOf? name = none) :
    roster.insert name member = (roster.append name member new, roster.size) := by
  unfold insert
  split
  · rename_i taken isSlot
    cases new.symm.trans isSlot
  · rfl

theorem owner_insert (roster : Roster α ω) (name : String) (member : α) :
    (roster.insert name member).1.owner = roster.owner := by
  rw [insert]
  split <;> rfl

theorem size_insert_of_new {roster : Roster α ω} {name : String} (member : α)
    (new : roster.slotOf? name = none) :
    (roster.insert name member).1.size = roster.size + 1 := by
  simp [insert_of_new member new, append, size]

theorem slotOf?_append_eq_some_iff (roster : Roster α ω) {name : String} (member : α)
    (new : roster.slotOf? name = none) (other : String) (slot : Nat) :
    (roster.append name member new).slotOf? other = some slot ↔
      name = other ∧ roster.size = slot ∨ roster.slotOf? other = some slot :=
  Table.find?_insert_eq_some_iff new ..

theorem names_insert_of_known {roster : Roster α ω} {name : String} {slot : Nat} (member : α)
    (known : roster.slotOf? name = some slot) :
    (roster.insert name member).1.names = roster.names := by
  rw [insert_of_known member known]
  exact names_eq_of_slotOf? fun other name => roster.getElem?_names_iff other name

theorem names_insert_of_new {roster : Roster α ω} {name : String} (member : α)
    (new : roster.slotOf? name = none) :
    (roster.insert name member).1.names = roster.names ++ [name] := by
  rw [insert_of_new member new]
  refine names_eq_of_slotOf? fun slot other => ?_
  rw [slotOf?_append_eq_some_iff, ← getElem?_names_iff, List.getElem?_append, ← length_names]
  rcases Nat.lt_trichotomy slot roster.names.length with before | rfl | beyond
  · simp [before, Nat.ne_of_gt before]
  · simp
  · have after : [name][slot - roster.names.length]? = none :=
      List.getElem?_eq_none (by simp only [List.length_singleton]; omega)
    simp [Nat.not_lt_of_gt beyond, Nat.ne_of_lt beyond, after]

/-- A name keeps its slot when others are entered. -/
theorem names_insert (roster : Roster α ω) (name : String) (member : α) :
    roster.names <+: (roster.insert name member).1.names := by
  cases known : roster.slotOf? name with
  | none =>
      rw [names_insert_of_new member known]
      exact List.prefix_append _ _
  | some slot => exact ⟨[], by rw [List.append_nil, names_insert_of_known member known]⟩

theorem Keyed.insert {nameOf : α → String} {roster : Roster α ω} (keyed : Keyed nameOf roster)
    (name : String) {member : α}
    (stamps : ∀ slot, nameOf (Stamped.stamp roster.owner name slot member) = name) :
    Keyed nameOf (roster.insert name member).1 where
  distinct := nodup_names _
  named := by
    cases known : roster.slotOf? name with
    | none =>
        rw [names_insert_of_new member known, ← keyed.named, insert_of_new member known]
        simp [append, stamps]
    | some slot =>
        have isName := (roster.getElem?_names_iff slot name).mpr known
        rw [names_insert_of_known member known, insert_of_known member known, replace, withMembers,
          List.map_set, stamps, keyed.named]
        obtain ⟨within, rfl⟩ := List.getElem?_eq_some_iff.mp isName
        exact List.set_getElem_self within

/-- The name leads to the slot that entering answers. -/
theorem slotOf?_insert (roster : Roster α ω) (name : String) (member : α) :
    (roster.insert name member).1.slotOf? name = some (roster.insert name member).2 := by
  cases known : roster.slotOf? name with
  | some slot =>
      rw [insert_of_known member known]
      exact known
  | none =>
      rw [insert_of_new member known]
      exact (roster.slotOf?_append_eq_some_iff member known ..).mpr (.inl ⟨rfl, rfl⟩)

/-- What is entered stands, stamped, at its slot; the other slots are as before. -/
theorem at?_insert (roster : Roster α ω) (name : String) (member : α) (slot : Nat) :
    (roster.insert name member).1.at? slot =
      if slot = (roster.insert name member).2 then
        some (Stamped.stamp roster.owner name slot member)
      else roster.at? slot := by
  cases known : roster.slotOf? name with
  | some taken =>
      have below : taken < roster.members.length := lt_size_of_slotOf? known
      simp only [insert_of_known member known, at?, replace, withMembers, List.getElem?_set]
      by_cases same : slot = taken
      · subst same
        simp [below]
      · simp [same, Ne.symm same]
  | none =>
      simp only [insert_of_new member known, at?, append, size]
      rcases Nat.lt_trichotomy slot roster.members.length with below | rfl | above
      · rw [List.getElem?_append_left below, if_neg (Nat.ne_of_lt below)]
      · simp
      · rw [if_neg (Nat.ne_of_gt above), List.getElem?_eq_none (Nat.le_of_lt above),
          List.getElem?_eq_none
            (by simp only [List.length_append, List.length_singleton]; omega)]

end Roster

end LifecycleGraph
