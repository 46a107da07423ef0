import Mathlib.Data.Nat.Find
import LifecycleGraph.Proofs.Forest.Lineage
import LifecycleGraph.Proofs.Text.Parts

/-!
# Look-ups of tags

A tag answers to some names if its path ends with them.  A dotted name finds the oldest tag
that answers to its names and, below a namespace, the oldest one that stands below it.  So a
tag is found by its absolute name if no older tag answers to its path too, as where the own
names of all tags are different.
-/

set_option autoImplicit false

namespace LifecycleGraph

namespace Forest

variable {forest : Forest}

/-! ## Paths -/

theorem Rooted.path_eq (rooted : forest.Rooted) {id : TagId} {tag : Tag}
    (found : forest.find? id = some tag) :
    ∃ above, forest.path id = above ++ [tag.name] := by
  rw [path, rooted.lineage_eq]
  cases forest.parent? id with
  | none => exact ⟨[], by simp [found]⟩
  | some parent =>
      simp only [List.filterMap_cons, found, Option.map_some, List.reverse_cons]
      exact ⟨_, rfl⟩

theorem Linked.valid_path (linked : forest.Linked) {id : TagId} {name : String}
    (member : name ∈ forest.path id) : validName name = true := by
  obtain ⟨other, -, isName⟩ := List.mem_filterMap.mp (List.mem_reverse.mp member)
  obtain ⟨tag, found, rfl⟩ := Option.map_eq_some_iff.mp isName
  exact linked.named found

theorem not_mem_of_validName {name : String} (valid : validName name = true) :
    '.' ∉ name.toList := by
  simp only [validName, Bool.and_eq_true, Bool.not_eq_true', List.contains_eq_mem,
    decide_eq_false_iff_not] at valid
  exact valid.2

theorem Linked.parts_absoluteName (linked : forest.Linked) {id : TagId} {tag : Tag}
    (found : forest.find? id = some tag) :
    Text.parts '.' (forest.absoluteName id) = forest.path id := by
  obtain ⟨above, isPath⟩ := linked.rooted.path_eq found
  exact Text.parts_joinWith (by simp [isPath])
    fun name member => not_mem_of_validName (linked.valid_path member)

theorem Linked.parts_name (linked : forest.Linked) {id : TagId} {tag : Tag}
    (found : forest.find? id = some tag) : Text.parts '.' tag.name = [tag.name] := by
  rw [Text.parts, Text.splitOn_of_not_mem (not_mem_of_validName (linked.named found)),
    List.map_singleton, String.ofList_toList]

/-! ## Tags that answer to names -/

/-- The tag is there, and its path ends with the names. -/
def Answers (forest : Forest) (names : List String) (id : TagId) : Prop :=
  forest.contains id = true ∧ forest.endsWith id names = true

/-- The tag stands below the namespace and is not the namespace itself. -/
def Below (forest : Forest) (ns id : TagId) : Prop := id ≠ ns ∧ forest.isa id ns = true

theorem answers_path {id : TagId} {tag : Tag} (found : forest.find? id = some tag) :
    forest.Answers (forest.path id) id :=
  ⟨(contains_iff id).mpr ⟨tag, found⟩, List.isSuffixOf_iff_suffix.mpr (List.suffix_refl _)⟩

theorem Rooted.answers_name (rooted : forest.Rooted) {id : TagId} {tag : Tag}
    (found : forest.find? id = some tag) : forest.Answers [tag.name] id := by
  obtain ⟨above, isPath⟩ := rooted.path_eq found
  refine ⟨(contains_iff id).mpr ⟨tag, found⟩, ?_⟩
  rw [endsWith, isPath, List.isSuffixOf_iff_suffix]
  exact List.suffix_append _ _

/-- The last of the names that a tag answers to is its own. -/
theorem Rooted.getLast?_of_answers (rooted : forest.Rooted) {names : List String}
    (notEmpty : names ≠ []) {id : TagId} (answers : forest.Answers names id) :
    ∃ tag, forest.find? id = some tag ∧ names.getLast? = some tag.name := by
  obtain ⟨tag, found⟩ := (contains_iff id).mp answers.1
  obtain ⟨above, isPath⟩ := rooted.path_eq found
  obtain ⟨before, parted⟩ := List.isSuffixOf_iff_suffix.mp answers.2
  refine ⟨tag, found, ?_⟩
  have last : (before ++ names).getLast? = some tag.name := by simp [parted, isPath]
  rwa [List.getLast?_append_of_ne_nil before notEmpty] at last

/-! ## The index of names -/

theorem Linked.mem_homonyms_iff (linked : forest.Linked) (names : List String) (id : TagId) :
    id ∈ forest.homonyms names ↔
      ∃ tag, forest.find? id = some tag ∧ names.getLast? = some tag.name := by
  rw [homonyms]
  cases names.getLast? with
  | none => simp
  | some leaf =>
      rw [linked.indexed.exact leaf id]
      simp [eq_comm]

theorem Linked.pairwise_homonyms (linked : forest.Linked) (names : List String) :
    (forest.homonyms names).Pairwise (· < ·) := by
  rw [homonyms]
  cases names.getLast? with
  | none => exact .nil
  | some leaf =>
      simp only
      cases held : forest.names.find? leaf with
      | none => exact .nil
      | some ids => exact (linked.indexed.ascending held).2

/-- The first member of an ascending list that passes a test is the oldest one. -/
theorem find?_eq_some_iff_of_pairwise {ids : List TagId} (ascending : ids.Pairwise (· < ·))
    (test : TagId → Bool) (id : TagId) :
    ids.find? test = some id ↔
      (id ∈ ids ∧ test id = true) ∧ ∀ other ∈ ids, test other = true → id.index ≤ other.index := by
  induction ids with
  | nil => simp
  | cons first rest inductionHypothesis =>
      obtain ⟨youngest, ascending⟩ := List.pairwise_cons.mp ascending
      rw [List.find?_cons]
      by_cases passes : test first = true
      · simp only [passes, Option.some.injEq]
        constructor
        · rintro rfl
          refine ⟨⟨List.mem_cons_self .., passes⟩, fun other member _ => ?_⟩
          rcases List.mem_cons.mp member with rfl | inRest
          · exact Nat.le_refl _
          · exact Nat.le_of_lt (youngest other inRest)
        · rintro ⟨⟨member, -⟩, oldest⟩
          rcases List.mem_cons.mp member with same | inRest
          · exact same.symm
          · have below : first.index < id.index := youngest id inRest
            have above := oldest first (List.mem_cons_self ..) passes
            omega
      · simp only [Bool.not_eq_true] at passes
        simp only [passes, inductionHypothesis ascending, List.mem_cons, forall_eq_or_imp,
          Bool.false_eq_true, false_implies, true_and]
        refine and_congr_left fun _ => ⟨fun both => ⟨.inr both.1, both.2⟩, fun both => ?_⟩
        refine ⟨both.1.resolve_left fun same => ?_, both.2⟩
        rw [same, passes] at both
        exact Bool.false_ne_true both.2

/-- The first tag of a look-up that answers to its names and passes a test. -/
theorem Linked.find?_homonyms_eq_some_iff (linked : forest.Linked) {names : List String}
    (notEmpty : names ≠ []) (test : TagId → Bool) (id : TagId) :
    (forest.homonyms names).find? (fun other => test other && forest.endsWith other names) =
        some id ↔
      (forest.Answers names id ∧ test id = true) ∧
        ∀ other, forest.Answers names other → test other = true → id.index ≤ other.index := by
  have isHomonym (other : TagId) :
      other ∈ forest.homonyms names ∧ (test other && forest.endsWith other names) = true ↔
        forest.Answers names other ∧ test other = true := by
    rw [linked.mem_homonyms_iff, Bool.and_eq_true]
    constructor
    · rintro ⟨⟨tag, found, -⟩, passes, ends⟩
      exact ⟨⟨(contains_iff other).mpr ⟨tag, found⟩, ends⟩, passes⟩
    · intro both
      exact ⟨linked.rooted.getLast?_of_answers notEmpty both.1, both.2, both.1.2⟩
  rw [find?_eq_some_iff_of_pairwise (linked.pairwise_homonyms names), isHomonym]
  refine and_congr_right fun _ => forall_congr' fun other => ?_
  rw [← and_imp, isHomonym, and_imp]

/-! ## Look-ups -/

/-- A dotted name finds the oldest tag that answers to its names. -/
theorem Linked.lookup?_eq_some_iff (linked : forest.Linked) (name : String) (id : TagId) :
    forest.lookup? name = some id ↔
      forest.Answers (Text.parts '.' name) id ∧
        ∀ other, forest.Answers (Text.parts '.' name) other → id.index ≤ other.index := by
  have first := linked.find?_homonyms_eq_some_iff (Text.parts_ne_nil '.' name)
    (fun _ => true) id
  simp only [Bool.true_and, and_true, true_implies] at first
  rw [lookup?, candidates, List.head?_filter]
  exact first

/-- Below a namespace it finds the oldest of those that stand below it. -/
theorem Linked.lookupBelow?_eq_some_iff (linked : forest.Linked) (ns : TagId) (name : String)
    (id : TagId) :
    forest.lookupBelow? ns name = some id ↔
      (forest.Answers (Text.parts '.' name) id ∧ forest.Below ns id) ∧
        ∀ other, forest.Answers (Text.parts '.' name) other → forest.Below ns other →
          id.index ≤ other.index := by
  have first := linked.find?_homonyms_eq_some_iff (Text.parts_ne_nil '.' name)
    (fun other => decide (other ≠ ns) && forest.isa other ns) id
  simp only [Bool.and_eq_true, decide_eq_true_eq] at first
  rw [lookupBelow?]
  exact first

/-- Some tag that passes a test is the oldest one to do so. -/
theorem exists_oldest {passes : TagId → Prop} (exist : ∃ id, passes id) :
    ∃ id, passes id ∧ ∀ other, passes other → id.index ≤ other.index := by
  classical
  have inhabited : ∃ index, passes ⟨index⟩ := by
    obtain ⟨id, passing⟩ := exist
    exact ⟨id.index, passing⟩
  exact ⟨⟨Nat.find inhabited⟩, Nat.find_spec inhabited,
    fun other passing => Nat.find_min' inhabited passing⟩

theorem Linked.exists_lookup?_eq_some (linked : forest.Linked) {name : String}
    (exist : ∃ id, forest.Answers (Text.parts '.' name) id) :
    ∃ id, forest.lookup? name = some id := by
  obtain ⟨id, oldest⟩ := exists_oldest exist
  exact ⟨id, (linked.lookup?_eq_some_iff name id).mpr oldest⟩

theorem Linked.lookupBelow?_eq_none_iff (linked : forest.Linked) (ns : TagId) (name : String) :
    forest.lookupBelow? ns name = none ↔
      ∀ id, forest.Answers (Text.parts '.' name) id → ¬ forest.Below ns id := by
  rw [← not_iff_not, ← ne_eq, Option.ne_none_iff_exists']
  simp only [linked.lookupBelow?_eq_some_iff, not_forall, not_not, exists_prop]
  constructor
  · rintro ⟨id, both, -⟩
    exact ⟨id, both⟩
  · intro exist
    obtain ⟨id, both, oldest⟩ := exists_oldest exist
    exact ⟨id, both, fun other answers below => oldest other ⟨answers, below⟩⟩

/-! ## Own names that are different -/

/-- No two tags have the same own name. -/
def DistinctlyNamed (forest : Forest) : Prop :=
  ∀ id other tag twin, forest.find? id = some tag → forest.find? other = some twin →
    tag.name = twin.name → id = other

theorem distinctlyNamed_of_nodup (nodup : (forest.arena.values.map Tag.name).Nodup) :
    forest.DistinctlyNamed := by
  intro ⟨index⟩ ⟨other⟩ tag twin found isTwin same
  exact congrArg TagId.mk (forest.arena.index_eq_of_nodup Tag.name nodup found isTwin same)

section Distinct

variable (linked : forest.Linked) (distinct : forest.DistinctlyNamed)

include linked distinct

/-- Only one tag answers to names. -/
theorem eq_of_answers {names : List String} (notEmpty : names ≠ []) {id other : TagId}
    (answers : forest.Answers names id) (also : forest.Answers names other) : other = id := by
  obtain ⟨tag, found, isName⟩ := linked.rooted.getLast?_of_answers notEmpty answers
  obtain ⟨twin, isTwin, isTwinName⟩ := linked.rooted.getLast?_of_answers notEmpty also
  exact distinct other id twin tag isTwin found
    (Option.some.inj (isTwinName.symm.trans isName))

/-- A tag is found by its absolute name. -/
theorem lookup?_absoluteName {id : TagId} {tag : Tag} (found : forest.find? id = some tag) :
    forest.lookup? (forest.absoluteName id) = some id := by
  have parts := linked.parts_absoluteName found
  rw [linked.lookup?_eq_some_iff, parts]
  refine ⟨answers_path found, fun other also => ?_⟩
  have same := eq_of_answers linked distinct (parts ▸ Text.parts_ne_nil '.' _)
    (answers_path found) also
  exact Nat.le_of_eq (congrArg TagId.index same.symm)

end Distinct

end Forest

end LifecycleGraph
