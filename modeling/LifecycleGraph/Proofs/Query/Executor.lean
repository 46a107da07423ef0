import Mathlib.Data.List.Perm.Basic
import LifecycleGraph.Proofs.Collection
import LifecycleGraph.Collection.Total
import LifecycleGraph.Query.Executor

/-!
# Laws of executors

An executor that enumerates finds exactly the nodes that it accepts, each once,
and does not estimate less than it finds.  Conjunctions, unions and complements
accept what their operands accept, whatever operand is enumerated and in
whatever order the others are tested.
-/

set_option autoImplicit false

namespace LifecycleGraph

namespace Executor

variable {ε : Type}

/-- An executor that enumerates finds the nodes that it accepts, each once, and
all of them are of a kind.  Its size is short of their number at most where that
is more than can be counted. -/
structure Lawful (live : NodeId → Prop) (executor : Executor ε) : Prop where
  nodup : executor.iterable = true → executor.items.Nodup
  mem_items : executor.iterable = true → ∀ id, id ∈ executor.items ↔ executor.accepts id = true
  live : executor.iterable = true → ∀ id, executor.accepts id = true → live id
  size : executor.iterable = true → min executor.items.length unbounded ≤ executor.size

variable {live : NodeId → Prop}

theorem items_enumerated (test : NodeId → Traced ε Bool) (size : Nat) (items : List NodeId) :
    (enumerated test size items).items = items := by
  induction items with
  | nil => rfl
  | cons id rest inductionHypothesis => exact congrArg (id :: ·) inductionHypothesis

theorem lawful_enumerated {accepts : NodeId → Bool} {size : Nat} {items : List NodeId}
    (nodup : items.Nodup) (members : ∀ id, id ∈ items ↔ accepts id = true)
    (allLive : ∀ id, accepts id = true → live id) (enough : items.length ≤ size) :
    (enumerated (silent (ε := ε) accepts) size items).Lawful live where
  nodup _ := by rwa [items_enumerated]
  mem_items _ id := by
    rw [items_enumerated]
    exact members id
  live _ := allLive
  size _ := by
    rw [items_enumerated]
    exact Nat.le_trans (Nat.min_le_left ..) enough

theorem lawful_predicate (test : NodeId → Traced ε Bool) : (predicate test).Lawful live where
  nodup iterable := by cases iterable
  mem_items iterable := by cases iterable
  live iterable := by cases iterable
  size iterable := by cases iterable

theorem lawful_nothing : (nothing : Executor ε).Lawful live :=
  lawful_enumerated List.nodup_nil (fun _ => by simp) (fun _ accepted => by cases accepted)
    (Nat.zero_le _)

@[simp] theorem accepts_nothing (id : NodeId) : (nothing : Executor ε).accepts id = false := rfl

@[simp] theorem accepts_complement (inner : Executor ε) (id : NodeId) :
    inner.complement.accepts id = !inner.accepts id := rfl

theorem lawful_complement (inner : Executor ε) : inner.complement.Lawful live :=
  lawful_predicate _

/-! ## Conjunctions -/

theorem value_testAll (operands : List (Executor ε)) (id : NodeId) :
    (testAll operands id).value = operands.all fun operand => operand.accepts id := by
  induction operands with
  | nil => rfl
  | cons operand rest inductionHypothesis =>
      have first : (operand.test id).value = operand.accepts id := rfl
      simp only [testAll, List.all_cons, first]
      cases accepted : operand.accepts id with
      | true =>
          simp only [if_true, Bool.true_and]
          exact inductionHypothesis
      | false => simp only [Bool.false_eq_true, if_false, Bool.false_and, first, accepted]

theorem accepts_filtered (primary : Executor ε) (filters : List (Executor ε)) (id : NodeId) :
    (filtered primary filters).accepts id =
      (primary.accepts id && filters.all fun filter => filter.accepts id) :=
  value_testAll (primary :: filters) id

theorem items_filtered (primary : Executor ε) (filters : List (Executor ε)) :
    (filtered primary filters).items =
      primary.items.filter fun id => filters.all fun filter => filter.accepts id := by
  unfold items filtered
  simp only
  induction primary.visits with
  | nil => rfl
  | cons visit rest inductionHypothesis =>
      cases found : visit.value with
      | none =>
          have passed : (filterVisit filters visit).value = none := by
            simp only [filterVisit, found]
          rw [List.map_cons, List.filterMap_cons_none passed, List.filterMap_cons_none found]
          exact inductionHypothesis
      | some id =>
          have kept : (filterVisit filters visit).value =
              if (filters.all fun filter => filter.accepts id) = true then some id else none := by
            simp only [filterVisit, found, value_testAll]
          rw [List.map_cons, List.filterMap_cons_some found, List.filter_cons]
          split at kept
          · rename_i accepted
            rw [List.filterMap_cons_some kept, if_pos accepted, inductionHypothesis]
          · rename_i refused
            rw [List.filterMap_cons_none kept, if_neg refused]
            exact inductionHypothesis

theorem Lawful.filtered {primary : Executor ε} (lawful : primary.Lawful live)
    (filters : List (Executor ε)) : (filtered primary filters).Lawful live where
  nodup iterable := by
    rw [items_filtered]
    exact (lawful.nodup iterable).filter _
  mem_items iterable id := by
    rw [items_filtered, accepts_filtered, List.mem_filter, lawful.mem_items iterable id,
      Bool.and_eq_true]
  live iterable id accepted := by
    rw [accepts_filtered, Bool.and_eq_true] at accepted
    exact lawful.live iterable id accepted.1
  size iterable := by
    have shorter : (Executor.filtered primary filters).items.length ≤ primary.items.length := by
      rw [items_filtered]
      exact List.length_filter_le ..
    have bound := lawful.size iterable
    have sizes : (Executor.filtered primary filters).size = primary.size := rfl
    omega

theorem exists_primary {operands : List (Executor ε)} (some : operands ≠ []) :
    ∃ primary, operands[primaryIndex operands]? = Option.some primary := by
  have inRange : primaryIndex operands < operands.length := by
    have positive := List.length_pos_of_ne_nil some
    rw [primaryIndex]
    split
    · cases found : operands.findIdx? _ with
      | none => exact positive
      | some index => exact (List.findIdx?_eq_some_iff_getElem.mp found).1
    · exact positive
  exact ⟨_, List.getElem?_eq_getElem inRange⟩

/-- A planned conjunction accepts what all of its operands accept. -/
theorem accepts_planned {operands : List (Executor ε)} (some : operands ≠ []) (id : NodeId) :
    (planned operands).accepts id = operands.all fun operand => operand.accepts id := by
  obtain ⟨primary, isPrimary⟩ := exists_primary some
  obtain ⟨inRange, atIndex⟩ := List.getElem?_eq_some_iff.mp isPrimary
  have reordered : (primary :: sortBy size (operands.eraseIdx (primaryIndex operands))).Perm
      operands := by
    refine ((sortBy_perm size _).cons primary).trans ?_
    rw [← atIndex]
    exact List.getElem_cons_eraseIdx_perm inRange
  have acceptsBoth : (planned operands).accepts id =
      (primary :: sortBy size (operands.eraseIdx (primaryIndex operands))).all
        fun operand => operand.accepts id := by
    simp only [planned, isPrimary]
    exact value_testAll _ id
  rw [acceptsBoth, Bool.eq_iff_iff, List.all_eq_true, List.all_eq_true]
  exact forall_congr' fun operand => imp_congr_left reordered.mem_iff

theorem lawful_planned {operands : List (Executor ε)}
    (lawful : ∀ operand ∈ operands, operand.Lawful live) : (planned operands).Lawful live := by
  rw [planned]
  split
  · rename_i primary isPrimary
    exact (lawful primary (List.mem_of_getElem? isPrimary)).filtered _
  · exact lawful_nothing

/-! ## Unions -/

theorem value_testAny (operands : List (Executor ε)) (id : NodeId) :
    (testAny operands id).value = operands.any fun operand => operand.accepts id := by
  induction operands with
  | nil => rfl
  | cons operand rest inductionHypothesis =>
      have first : (operand.test id).value = operand.accepts id := rfl
      simp only [testAny, List.any_cons, first]
      cases accepted : operand.accepts id with
      | true => simp only [if_true, Bool.true_or, first, accepted]
      | false =>
          simp only [Bool.false_eq_true, if_false, Bool.false_or]
          exact inductionHypothesis

theorem accepts_union (operands : List (Executor ε)) (id : NodeId) :
    (union operands).accepts id = operands.any fun operand => operand.accepts id :=
  value_testAny operands id

/-- Visits that pass by what was found before find each node once. -/
theorem passRepeats_spec (visits : List (Traced ε (Option NodeId))) (seen : List NodeId) :
    ((passRepeats seen visits).filterMap Traced.value).Nodup ∧
      (∀ id, id ∈ (passRepeats seen visits).filterMap Traced.value ↔
        id ∈ visits.filterMap Traced.value ∧ id ∉ seen) ∧
      ((passRepeats seen visits).filterMap Traced.value).length ≤
        (visits.filterMap Traced.value).length := by
  -- What was seen grows along the visits, so that the three facts go through for any start.
  induction visits generalizing seen with
  | nil => simp [passRepeats]
  | cons visit rest inductionHypothesis =>
      rw [passRepeats]
      cases found : visit.value with
      | none =>
          simp only
          rw [List.filterMap_cons_none found, List.filterMap_cons_none found]
          exact inductionHypothesis seen
      | some id =>
          simp only
          rw [List.filterMap_cons_some (l := rest) found]
          split
          · rename_i repeated
            obtain ⟨nodup, members, shorter⟩ := inductionHypothesis seen
            have wasSeen : id ∈ seen := List.contains_iff_mem.mp repeated
            refine ⟨nodup, fun other => ?_, Nat.le_succ_of_le shorter⟩
            rw [List.filterMap_cons_none rfl, members, List.mem_cons]
            refine and_congr_left fun notSeen => ⟨.inr, fun member => member.resolve_left ?_⟩
            intro same
            obtain rfl := same
            exact notSeen wasSeen
          · rename_i new
            obtain ⟨nodup, members, shorter⟩ := inductionHypothesis (id :: seen)
            have notSeen : id ∉ seen := fun wasSeen => new (List.contains_iff_mem.mpr wasSeen)
            rw [List.filterMap_cons_some found]
            refine ⟨List.nodup_cons.mpr ⟨fun member => ?_, nodup⟩, fun other => ?_,
              Nat.succ_le_succ shorter⟩
            · exact ((members id).mp member).2 (List.mem_cons_self ..)
            · rw [List.mem_cons, List.mem_cons, members, List.mem_cons]
              by_cases same : other = id
              · subst same
                simp [notSeen]
              · simp [same]

theorem mem_items_flatMap (operands : List (Executor ε)) (id : NodeId) :
    id ∈ (operands.flatMap Executor.visits).filterMap Traced.value ↔
      ∃ operand ∈ operands, id ∈ operand.items := by
  rw [List.filterMap_flatMap, List.mem_flatMap]
  rfl

theorem length_items_le {operands : List (Executor ε)}
    (lawful : ∀ operand ∈ operands, operand.Lawful live)
    (iterable : ∀ operand ∈ operands, operand.iterable = true) :
    min ((operands.flatMap Executor.visits).filterMap Traced.value).length unbounded ≤
      total Executor.size operands := by
  induction operands with
  | nil => simp
  | cons operand rest inductionHypothesis =>
      have here := (lawful operand (List.mem_cons_self ..)).size
        (iterable operand (List.mem_cons_self ..))
      have others := inductionHypothesis
        (fun other inRest => lawful other (List.mem_cons_of_mem _ inRest))
        (fun other inRest => iterable other (List.mem_cons_of_mem _ inRest))
      have own : (operand.visits.filterMap Traced.value).length = operand.items.length := rfl
      simp only [List.flatMap_cons, List.filterMap_append, List.length_append, total]
      omega

theorem lawful_union {operands : List (Executor ε)}
    (lawful : ∀ operand ∈ operands, operand.Lawful live) : (union operands).Lawful live := by
  have each (iterable : (union operands).iterable = true) :
      ∀ operand ∈ operands, operand.iterable = true := List.all_eq_true.mp iterable
  obtain ⟨nodup, members, shorter⟩ := passRepeats_spec (operands.flatMap Executor.visits) []
  refine ⟨fun _ => nodup, fun iterable id => ?_, fun iterable id accepted => ?_,
    fun iterable => ?_⟩
  · have found : id ∈ (union operands).items ↔ ∃ operand ∈ operands, id ∈ operand.items := by
      rw [← mem_items_flatMap]
      exact (members id).trans (by simp)
    rw [found, accepts_union, List.any_eq_true]
    refine exists_congr fun operand => and_congr_right fun isOperand => ?_
    exact (lawful operand isOperand).mem_items (each iterable operand isOperand) id
  · rw [accepts_union, List.any_eq_true] at accepted
    obtain ⟨operand, isOperand, accepts⟩ := accepted
    exact (lawful operand isOperand).live (each iterable operand isOperand) id accepts
  · have bound := length_items_le lawful (each iterable)
    have allIterable : operands.all Executor.iterable = true := iterable
    have size : (union operands).size = min (total Executor.size operands) unbounded := by
      simp only [union, allIterable, if_true]
    have count : (union operands).items.length ≤
        ((operands.flatMap Executor.visits).filterMap Traced.value).length := shorter
    omega

end Executor

end LifecycleGraph
