import Mathlib.Data.Finset.Card
import Mathlib.Data.List.Forall2
import Mathlib.Order.Bounds.Basic
import LifecycleGraph.Proofs.Query.Executor

/-!
# The order of operands

A conjunction enumerates the operand of the least size, and a union all of them, so that an
enumeration depends on the order of the operands.  Which nodes are found, how many are estimated
and which are accepted does not, as long as each operand finds what it accepts.  An operand may
find a node more than once, and may be a conjunction or a union itself: these are consistent where
their operands are, and alike where their operands are alike.
-/

set_option autoImplicit false

namespace LifecycleGraph

namespace Executor

variable {ε : Type}

/-- The nodes that an enumeration finds, once or more often. -/
def found (executor : Executor ε) : Finset NodeId := executor.items.toFinset

/-- An executor that enumerates finds exactly the nodes that it accepts, and its size is a bound
of their number or says that there is no bound. -/
structure Consistent (executor : Executor ε) : Prop where
  mem_found : executor.iterable = true → ∀ id, id ∈ executor.found ↔ executor.accepts id = true
  size : executor.iterable = true →
    executor.found.card ≤ executor.size ∨ unbounded ≤ executor.size

/-- Two executors accept the same nodes and, if they enumerate, estimate and find the same. -/
structure Alike (first second : Executor ε) : Prop where
  accepts : ∀ id, first.accepts id = second.accepts id
  iterable : first.iterable = second.iterable
  size : first.iterable = true → first.size = second.size
  found : first.iterable = true → first.found = second.found

variable {operands others : List (Executor ε)}

theorem mem_found_iff (executor : Executor ε) (id : NodeId) :
    id ∈ executor.found ↔ id ∈ executor.items := List.mem_toFinset

namespace Alike

theorem refl (executor : Executor ε) : executor.Alike executor :=
  ⟨fun _ => rfl, rfl, fun _ => rfl, fun _ => rfl⟩

theorem symm {first second : Executor ε} (alike : first.Alike second) : second.Alike first where
  accepts id := (alike.accepts id).symm
  iterable := alike.iterable.symm
  size iterable := (alike.size (alike.iterable.trans iterable)).symm
  found iterable := (alike.found (alike.iterable.trans iterable)).symm

theorem consistent {first second : Executor ε} (alike : first.Alike second)
    (consistent : first.Consistent) : second.Consistent where
  mem_found iterable id := by
    have both : first.iterable = true := alike.iterable.trans iterable
    rw [← alike.found both, ← alike.accepts, consistent.mem_found both]
  size iterable := by
    have both : first.iterable = true := alike.iterable.trans iterable
    rw [← alike.found both, ← alike.size both]
    exact consistent.size both

end Alike

/-- Consistent executors are alike where they accept and estimate the same. -/
theorem Consistent.alike {first second : Executor ε} (consistent : first.Consistent)
    (also : second.Consistent) (accepts : ∀ id, first.accepts id = second.accepts id)
    (iterable : first.iterable = second.iterable)
    (size : first.iterable = true → first.size = second.size) : first.Alike second where
  accepts := accepts
  iterable := iterable
  size := size
  found enumerates := by
    ext id
    rw [consistent.mem_found enumerates, also.mem_found (iterable ▸ enumerates), accepts]

/-! ## Conjunctions -/

theorem Consistent.filtered {primary : Executor ε} (consistent : primary.Consistent)
    (filters : List (Executor ε)) : (filtered primary filters).Consistent := by
  have members (id : NodeId) : id ∈ (Executor.filtered primary filters).found ↔
      id ∈ primary.found ∧ (filters.all fun filter => filter.accepts id) = true := by
    rw [mem_found_iff, mem_found_iff, items_filtered, List.mem_filter]
  refine ⟨fun iterable id => ?_, fun iterable => ?_⟩
  · rw [members, accepts_filtered, consistent.mem_found iterable, Bool.and_eq_true]
  · have fewer : (Executor.filtered primary filters).found.card ≤ primary.found.card :=
      Finset.card_le_card fun id member => ((members id).mp member).1
    exact (consistent.size iterable).imp_left fewer.trans

/-- The executor enumerates and estimates a number. -/
def Offers (size : Nat) (executor : Executor ε) : Prop :=
  executor.iterable = true ∧ executor.size = size

theorem Alike.offers_iff {first second : Executor ε} (alike : first.Alike second) (size : Nat) :
    first.Offers size ↔ second.Offers size := by
  rw [Offers, Offers, ← alike.iterable]
  exact and_congr_right fun iterable => by rw [alike.size iterable]

/-- The sizes of the operands that enumerate. -/
def sizes (operands : List (Executor ε)) : Set Nat :=
  { size | ∃ operand ∈ operands, operand.Offers size }

theorem leastSize?_eq_some_iff (least : Nat) :
    leastSize? operands = some least ↔ IsLeast (sizes operands) least := by
  rw [leastSize?, List.min?_eq_some_iff]
  simp [IsLeast, lowerBounds, sizes, Offers, and_assoc]

/-- The operand that a conjunction enumerates has the least size of those that enumerate, if any
does. -/
theorem primary_spec {primary : Executor ε}
    (isPrimary : operands[primaryIndex operands]? = some primary) {operand : Executor ε}
    (member : operand ∈ operands) (iterable : operand.iterable = true) :
    primary.iterable = true ∧ IsLeast (sizes operands) primary.size := by
  have notNone : leastSize? operands ≠ none := by
    rw [leastSize?, ne_eq, List.min?_eq_none_iff, List.map_eq_nil_iff, List.filter_eq_nil_iff]
    exact fun none => none operand member iterable
  obtain ⟨least, isLeast⟩ := Option.ne_none_iff_exists'.mp notNone
  have bound := (leastSize?_eq_some_iff least).mp isLeast
  obtain ⟨other, isOther, enumerates, size⟩ := bound.1
  rw [primaryIndex, isLeast] at isPrimary
  simp only at isPrimary
  cases position : operands.findIdx? fun operand => operand.iterable && operand.size == least with
  | none =>
      have fails := List.findIdx?_eq_none_iff.mp position other isOther
      simp [enumerates, size] at fails
  | some index =>
      obtain ⟨inRange, passes, -⟩ := List.findIdx?_eq_some_iff_getElem.mp position
      rw [position, Option.getD_some, List.getElem?_eq_getElem inRange] at isPrimary
      obtain rfl := Option.some.inj isPrimary
      obtain ⟨leads, same⟩ := Bool.and_eq_true_iff.mp passes
      rw [beq_iff_eq] at same
      exact ⟨leads, same ▸ bound⟩

theorem consistent_planned (some : operands ≠ [])
    (consistent : ∀ operand ∈ operands, operand.Consistent) : (planned operands).Consistent := by
  obtain ⟨primary, isPrimary⟩ := exists_primary some
  simp only [planned, isPrimary]
  exact (consistent primary (List.mem_of_getElem? isPrimary)).filtered _

theorem iterable_planned_iff (some : operands ≠ []) :
    (planned operands).iterable = true ↔ ∃ operand ∈ operands, operand.iterable = true := by
  obtain ⟨primary, isPrimary⟩ := exists_primary some
  have same : (planned operands).iterable = primary.iterable := by
    simp only [planned, isPrimary]
    rfl
  rw [same]
  constructor
  · exact fun iterable => ⟨primary, List.mem_of_getElem? isPrimary, iterable⟩
  · rintro ⟨operand, member, iterable⟩
    exact (primary_spec isPrimary member iterable).1

theorem isLeast_size_planned (some : operands ≠ [])
    (iterable : (planned operands).iterable = true) :
    IsLeast (sizes operands) (planned operands).size := by
  obtain ⟨primary, isPrimary⟩ := exists_primary some
  obtain ⟨operand, member, enumerates⟩ := (iterable_planned_iff some).mp iterable
  have same : (planned operands).size = primary.size := by
    simp only [planned, isPrimary]
    rfl
  rw [same]
  exact (primary_spec isPrimary member enumerates).2

/-! ## Unions -/

theorem mem_found_union (operands : List (Executor ε)) (id : NodeId) :
    id ∈ (union operands).found ↔ ∃ operand ∈ operands, id ∈ operand.found := by
  obtain ⟨-, members, -⟩ := passRepeats_spec (operands.flatMap Executor.visits) []
  have unseen : id ∈ (union operands).items ↔
      id ∈ (operands.flatMap Executor.visits).filterMap Traced.value :=
    (members id).trans (and_iff_left List.not_mem_nil)
  simp only [mem_found_iff, unseen, mem_items_flatMap]

theorem nodup_items_union (operands : List (Executor ε)) : (union operands).items.Nodup :=
  (passRepeats_spec (operands.flatMap Executor.visits) []).1

theorem iterable_union_iff (operands : List (Executor ε)) :
    (union operands).iterable = true ↔ ∀ operand ∈ operands, operand.iterable = true :=
  List.all_eq_true

theorem size_union (iterable : (union operands).iterable = true) :
    (union operands).size = min (total Executor.size operands) unbounded :=
  if_pos iterable

/-- What a union finds is found by some operand, so that it is not more than all of them
estimate, unless one of them gives no bound. -/
theorem card_found_union (consistent : ∀ operand ∈ operands, operand.Consistent)
    (iterable : ∀ operand ∈ operands, operand.iterable = true) :
    (union operands).found.card ≤ total Executor.size operands ∨
      unbounded ≤ total Executor.size operands := by
  induction operands with
  | nil =>
      have none : (union ([] : List (Executor ε))).found = ∅ := rfl
      exact .inl (by simp [none])
  | cons operand rest inductionHypothesis =>
      have within : (union (operand :: rest)).found.card ≤
          operand.found.card + (union rest).found.card := by
        refine (Finset.card_le_card fun id member => ?_).trans (Finset.card_union_le _ _)
        rw [mem_found_union, List.exists_mem_cons_iff, ← mem_found_union] at member
        exact Finset.mem_union.mpr member
      have here := (consistent operand (List.mem_cons_self ..)).size
        (iterable operand (List.mem_cons_self ..))
      have others := inductionHypothesis
        (fun other member => consistent other (List.mem_cons_of_mem _ member))
        (fun other member => iterable other (List.mem_cons_of_mem _ member))
      rw [total]
      omega

theorem consistent_union (consistent : ∀ operand ∈ operands, operand.Consistent) :
    (union operands).Consistent := by
  refine ⟨fun iterable id => ?_, fun iterable => ?_⟩
  · have each := (iterable_union_iff operands).mp iterable
    rw [mem_found_union, accepts_union, List.any_eq_true]
    refine exists_congr fun operand => and_congr_right fun member => ?_
    exact (consistent operand member).mem_found (each operand member) id
  · have counted := card_found_union consistent ((iterable_union_iff operands).mp iterable)
    rw [size_union iterable]
    omega

/-! ## Other orders -/

theorem total_perm {α : Type} (measure : α → Nat) {list other : List α} (perm : list.Perm other) :
    total measure list = total measure other := by
  induction perm with
  | nil => rfl
  | cons member _ inductionHypothesis => rw [total, total, inductionHypothesis]
  | swap first second rest => simp only [total, Nat.add_left_comm]
  | trans _ _ one two => exact one.trans two

/-- The second operands are the first ones in any order, or others that are alike. -/
def Rearranged (operands others : List (Executor ε)) : Prop :=
  ∃ permuted, operands.Perm permuted ∧ List.Forall₂ Alike permuted others

namespace Rearranged

variable (rearranged : Rearranged operands others)

include rearranged

/-- What is so of an operand of one list is so of an operand of the other, if it is so of alike
ones. -/
theorem exists_iff {holds : Executor ε → Prop}
    (alike : ∀ first second : Executor ε, first.Alike second → (holds first ↔ holds second)) :
    (∃ operand ∈ operands, holds operand) ↔ ∃ operand ∈ others, holds operand := by
  obtain ⟨permuted, perm, each⟩ := rearranged
  simp only [perm.mem_iff]
  clear perm
  induction each with
  | nil => rfl
  | cons first _ inductionHypothesis =>
      rw [List.exists_mem_cons_iff, List.exists_mem_cons_iff, inductionHypothesis,
        alike _ _ first]

theorem forall_iff {holds : Executor ε → Prop}
    (alike : ∀ first second : Executor ε, first.Alike second → (holds first ↔ holds second)) :
    (∀ operand ∈ operands, holds operand) ↔ ∀ operand ∈ others, holds operand := by
  have some := rearranged.exists_iff fun first second isAlike => not_congr (alike _ _ isAlike)
  simpa using not_congr some

theorem consistent (consistent : ∀ operand ∈ operands, operand.Consistent) :
    ∀ operand ∈ others, operand.Consistent :=
  (rearranged.forall_iff fun _ _ alike => ⟨alike.consistent, alike.symm.consistent⟩).mp consistent

theorem total_size (iterable : ∀ operand ∈ operands, operand.iterable = true) :
    total Executor.size operands = total Executor.size others := by
  obtain ⟨permuted, perm, each⟩ := rearranged
  have enumerates : ∀ operand ∈ permuted, operand.iterable = true :=
    fun operand member => iterable operand (perm.mem_iff.mpr member)
  rw [total_perm Executor.size perm]
  clear perm
  induction each with
  | nil => rfl
  | cons first _ inductionHypothesis =>
      obtain ⟨here, others⟩ := List.forall_mem_cons.mp enumerates
      rw [total, total, first.size here, inductionHypothesis others]

theorem planned (consistent : ∀ operand ∈ operands, operand.Consistent) :
    (planned operands).Alike (planned others) := by
  by_cases empty : operands = []
  · obtain ⟨permuted, perm, each⟩ := rearranged
    obtain rfl := empty
    obtain rfl := perm.nil_eq
    cases each
    exact .refl _
  have some : others ≠ [] := by
    obtain ⟨operand, member⟩ := List.exists_mem_of_ne_nil operands empty
    have any : (∃ operand ∈ operands, True) ↔ ∃ other ∈ others, True :=
      rearranged.exists_iff fun _ _ _ => Iff.rfl
    obtain ⟨other, isOther, -⟩ := any.mp ⟨operand, member, trivial⟩
    exact List.ne_nil_of_mem isOther
  have iterable : (Executor.planned operands).iterable = (Executor.planned others).iterable := by
    rw [Bool.eq_iff_iff, iterable_planned_iff empty, iterable_planned_iff some]
    exact rearranged.exists_iff fun _ _ alike => by rw [alike.iterable]
  refine (consistent_planned empty consistent).alike
    (consistent_planned some (rearranged.consistent consistent)) (fun id => ?_) iterable
    fun enumerates => ?_
  · rw [accepts_planned empty, accepts_planned some, Bool.eq_iff_iff, List.all_eq_true,
      List.all_eq_true]
    exact rearranged.forall_iff fun _ _ alike => by rw [alike.accepts]
  · have same : sizes operands = sizes others := by
      ext size
      exact rearranged.exists_iff fun _ _ alike => alike.offers_iff size
    have least := isLeast_size_planned some (iterable ▸ enumerates)
    exact (isLeast_size_planned empty enumerates).unique (same ▸ least)

theorem union (consistent : ∀ operand ∈ operands, operand.Consistent) :
    (union operands).Alike (union others) := by
  have iterable : (Executor.union operands).iterable = (Executor.union others).iterable := by
    rw [Bool.eq_iff_iff, iterable_union_iff, iterable_union_iff]
    exact rearranged.forall_iff fun _ _ alike => by rw [alike.iterable]
  refine (consistent_union consistent).alike
    (consistent_union (rearranged.consistent consistent)) (fun id => ?_) iterable
    fun enumerates => ?_
  · rw [accepts_union, accepts_union, Bool.eq_iff_iff, List.any_eq_true, List.any_eq_true]
    exact rearranged.exists_iff fun _ _ alike => by rw [alike.accepts]
  · rw [size_union enumerates, size_union (iterable ▸ enumerates),
      rearranged.total_size ((iterable_union_iff operands).mp enumerates)]

end Rearranged

/-! ## Orders at any depth -/

/-- Two executors are composed of the same consistent ones, with operands in different orders
at any depth. -/
inductive Reordered : Executor ε → Executor ε → Prop where
  | single {executor : Executor ε} (consistent : executor.Consistent) :
      Reordered executor executor
  | complement {first second : Executor ε} (inner : Reordered first second) :
      Reordered first.complement second.complement
  | planned {operands permuted others : List (Executor ε)} (some : operands ≠ [])
      (perm : operands.Perm permuted) (length : permuted.length = others.length)
      (each : ∀ index (here : index < permuted.length) (there : index < others.length),
        Reordered permuted[index] others[index]) :
      Reordered (planned operands) (planned others)
  | union {operands permuted others : List (Executor ε)}
      (perm : operands.Perm permuted) (length : permuted.length = others.length)
      (each : ∀ index (here : index < permuted.length) (there : index < others.length),
        Reordered permuted[index] others[index]) :
      Reordered (union operands) (union others)

theorem Alike.complement {first second : Executor ε} (alike : first.Alike second) :
    first.complement.Alike second.complement where
  accepts id := by rw [accepts_complement, accepts_complement, alike.accepts]
  iterable := rfl
  size enumerates := by cases enumerates
  found enumerates := by cases enumerates

theorem consistent_predicate (test : NodeId → Traced ε Bool) : (predicate test).Consistent where
  mem_found enumerates := by cases enumerates
  size enumerates := by cases enumerates

theorem consistent_rearranged {permuted : List (Executor ε)} (perm : operands.Perm permuted)
    (length : permuted.length = others.length)
    (each : ∀ index (here : index < permuted.length) (there : index < others.length),
      permuted[index].Consistent ∧ permuted[index].Alike others[index]) :
    (∀ operand ∈ operands, operand.Consistent) ∧ Rearranged operands others := by
  refine ⟨fun operand member => ?_, permuted, perm, ?_⟩
  · obtain ⟨index, here, rfl⟩ := List.mem_iff_getElem.mp (perm.mem_iff.mp member)
    exact (each index here (length ▸ here)).1
  · rw [List.forall₂_iff_get]
    exact ⟨length, fun index here there => (each index here there).2⟩

/-- Executors that are composed of consistent ones are consistent, and the orders of their
operands make no difference. -/
theorem Reordered.consistent_alike {first second : Executor ε}
    (reordered : Reordered first second) : first.Consistent ∧ first.Alike second := by
  induction reordered with
  | single consistent => exact ⟨consistent, .refl _⟩
  | complement _ inner => exact ⟨consistent_predicate _, inner.2.complement⟩
  | planned some perm length _ each =>
      obtain ⟨consistent, rearranged⟩ := consistent_rearranged perm length each
      exact ⟨consistent_planned some consistent, rearranged.planned consistent⟩
  | union perm length _ each =>
      obtain ⟨consistent, rearranged⟩ := consistent_rearranged perm length each
      exact ⟨consistent_union consistent, rearranged.union consistent⟩

/-- Conjunctions and unions of consistent operands are consistent.  A conjunction accepts what all
operands accept, enumerates if any of them does, and estimates the least of those that do; a union
accepts what any of them accepts, enumerates if all of them do, and finds each node once.  With
the operands in another order, or others that are alike, both are alike; and so are executors
that are composed of consistent ones to any depth. -/
theorem order_immaterial (consistent : ∀ operand ∈ operands, operand.Consistent) :
    (operands ≠ [] →
      (planned operands).Consistent ∧
        (∀ id, (planned operands).accepts id = operands.all fun operand => operand.accepts id) ∧
        ((planned operands).iterable = true ↔ ∃ operand ∈ operands, operand.iterable = true) ∧
        ((planned operands).iterable = true →
          IsLeast (sizes operands) (planned operands).size)) ∧
      (union operands).Consistent ∧
      (∀ id, (union operands).accepts id = operands.any fun operand => operand.accepts id) ∧
      ((union operands).iterable = true ↔ ∀ operand ∈ operands, operand.iterable = true) ∧
      (union operands).items.Nodup ∧
      (∀ permuted others, operands.Perm permuted → List.Forall₂ Alike permuted others →
        (planned operands).Alike (planned others) ∧ (union operands).Alike (union others)) ∧
      ∀ first second : Executor ε, Reordered first second →
        first.Consistent ∧ first.Alike second := by
  refine ⟨fun some => ⟨consistent_planned some consistent, accepts_planned some,
    iterable_planned_iff some, isLeast_size_planned some⟩, consistent_union consistent,
    accepts_union operands, iterable_union_iff operands, nodup_items_union operands,
    fun permuted others perm each => ?_, fun _ _ => Reordered.consistent_alike⟩
  have rearranged : Rearranged operands others := ⟨permuted, perm, each⟩
  exact ⟨rearranged.planned consistent, rearranged.union consistent⟩

/-- An executor that finds some nodes as often as they are listed. -/
def listing (ids : List NodeId) : Executor ε := enumerated (silent ids.contains) ids.length ids

theorem consistent_listing (ids : List NodeId) : (listing ids : Executor ε).Consistent where
  mem_found _ id := by
    rw [mem_found_iff, listing, items_enumerated]
    exact List.contains_iff_mem.symm
  size _ := by
    have found : (listing ids : Executor ε).found = ids.toFinset :=
      congrArg List.toFinset (items_enumerated _ _ _)
    rw [found]
    exact .inl (List.toFinset_card_le ids)

/-- Three operands: one finds a node twice, one tests only, and one finds two nodes. -/
def threeOperands : List (Executor Empty) :=
  [listing [⟨3⟩, ⟨1⟩, ⟨3⟩], predicate (silent fun id => id.index < 3), listing [⟨1⟩, ⟨2⟩]]

/-- The conjunction of the three enumerates the last one, also where this comes first. -/
theorem order_immaterial_threeOperands :
    IsLeast (sizes threeOperands) 2 ∧
      (planned threeOperands).Alike (planned threeOperands.reverse) ∧
      (planned threeOperands).items = [⟨1⟩] ∧
      (union (threeOperands.eraseIdx 1)).items.Nodup ∧
      (union (threeOperands.eraseIdx 1)).items = [⟨3⟩, ⟨1⟩, ⟨2⟩] := by
  have consistent : ∀ operand ∈ threeOperands, operand.Consistent := by
    simp [threeOperands, consistent_listing, consistent_predicate]
  have fewer : ∀ operand ∈ threeOperands.eraseIdx 1, operand.Consistent :=
    fun operand member => consistent operand (List.mem_of_mem_eraseIdx member)
  have alike : List.Forall₂ Alike threeOperands.reverse threeOperands.reverse :=
    List.forall₂_same.mpr fun operand _ => .refl operand
  obtain ⟨all, -, -, -, -, rearranged, -⟩ := order_immaterial consistent
  obtain ⟨-, -, -, -, nodup, -⟩ := order_immaterial fewer
  exact ⟨(all (List.cons_ne_nil _ _)).2.2.2 rfl,
    (rearranged _ _ (List.reverse_perm _).symm alike).1, rfl, nodup, rfl⟩

end Executor

end LifecycleGraph
