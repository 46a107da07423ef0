import Mathlib.Logic.Relation
import LifecycleGraph.Proofs.Forest.Lookup

/-!
# Paths of tags

The path of a tag has the names on the way down to it from a root.  As siblings have different
names no two tags have the same path, and as no name has a dot no two have the same absolute
name.  A dotted name finds the tags whose paths end with its parts, and below a namespace those
of them that stand below it.
-/

set_option autoImplicit false

namespace LifecycleGraph

namespace Forest

variable {forest : Forest} {id other ns : TagId} {tag : Tag} {names : List String}

/-- The names on the way from a root down to a tag. -/
inductive RootPath (forest : Forest) : TagId → List String → Prop where
  | root {id : TagId} {tag : Tag} : forest.find? id = some tag → tag.parent = none →
      RootPath forest id [tag.name]
  | child {id parent : TagId} {tag : Tag} {names : List String} : forest.find? id = some tag →
      tag.parent = some parent → RootPath forest parent names →
      RootPath forest id (names ++ [tag.name])

/-- The first tag is below the second one, and not the second one itself. -/
def Descends (forest : Forest) : TagId → TagId → Prop :=
  Relation.TransGen fun id parent => forest.parent? id = some parent

/-- What the names of tags tell, and what they find. -/
structure Addressed (forest : Forest) : Prop where
  path : ∀ id names, forest.RootPath id names ↔
    forest.contains id = true ∧ forest.path id = names
  absoluteName : ∀ id names, forest.RootPath id names →
    forest.absoluteName id = Text.joinWith "." names ∧
      Text.parts '.' (forest.absoluteName id) = names
  isNamed : ∀ id name, forest.isNamed id name = true ↔
    forest.contains id = true ∧ name = forest.absoluteName id
  identified : ∀ id other, forest.contains id = true → forest.contains other = true →
    forest.absoluteName id = forest.absoluteName other → id = other
  ascending : ∀ name, (forest.candidates name).Pairwise (· < ·)
  candidates : ∀ name id, id ∈ forest.candidates name ↔
    ∃ names, forest.RootPath id names ∧ Text.parts '.' name <:+ names
  lookup? : ∀ name, forest.lookup? name = (forest.candidates name).head?
  lookupBelow? : ∀ ns name id, forest.lookupBelow? ns name = some id ↔
    ∃ before after, forest.candidates name = before ++ id :: after ∧ forest.Descends id ns ∧
      ∀ earlier ∈ before, ¬ forest.Descends earlier ns

/-! ## The way to a tag -/

theorem parent?_of_found (found : forest.find? id = some tag) : forest.parent? id = tag.parent := by
  rw [parent?, found, Option.bind_some]

theorem Rooted.path_root (rooted : forest.Rooted) (found : forest.find? id = some tag)
    (isRoot : tag.parent = none) : forest.path id = [tag.name] := by
  rw [path, rooted.lineage_eq, parent?_of_found found, isRoot]
  simp [found]

theorem Rooted.path_child (rooted : forest.Rooted) {parent : TagId}
    (found : forest.find? id = some tag) (isParent : tag.parent = some parent) :
    forest.path id = forest.path parent ++ [tag.name] := by
  rw [path, rooted.lineage_eq, parent?_of_found found, isParent]
  simp [found, path]

theorem Rooted.path_of_gone (rooted : forest.Rooted) (gone : forest.find? id = none) :
    forest.path id = [] := by
  rw [path, rooted.lineage_eq, parent?, gone, Option.bind_none]
  simp [gone]

theorem RootPath.ne_nil (isPath : forest.RootPath id names) : names ≠ [] := by
  cases isPath with
  | root => exact List.cons_ne_nil _ _
  | child => exact List.append_ne_nil_of_right_ne_nil _ (List.cons_ne_nil _ _)

theorem Rooted.rootPath_path (rooted : forest.Rooted) (present : forest.contains id = true) :
    forest.RootPath id (forest.path id) := by
  -- A parent is older than its children, so the number of the tag falls on the way up.
  generalize number : id.index = index
  induction index using Nat.strongRecOn generalizing id with
  | ind index inductionHypothesis =>
      obtain ⟨tag, found⟩ := (contains_iff id).mp present
      cases isParent : tag.parent with
      | none =>
          rw [rooted.path_root found isParent]
          exact .root found isParent
      | some parent =>
          have above : forest.parent? id = some parent := by rw [parent?_of_found found, isParent]
          have older := rooted.parent?_lt above
          rw [rooted.path_child found isParent]
          exact .child found isParent
            (inductionHypothesis parent.index (by omega) (rooted.contains_parent above) rfl)

theorem Rooted.rootPath_iff (rooted : forest.Rooted) (id : TagId) (names : List String) :
    forest.RootPath id names ↔ forest.contains id = true ∧ forest.path id = names := by
  constructor
  · intro isPath
    induction isPath with
    | root found isRoot =>
        exact ⟨(contains_iff _).mpr ⟨_, found⟩, rooted.path_root found isRoot⟩
    | child found isParent _ inductionHypothesis =>
        refine ⟨(contains_iff _).mpr ⟨_, found⟩, ?_⟩
        rw [rooted.path_child found isParent, inductionHypothesis.2]
  · rintro ⟨present, rfl⟩
    exact rooted.rootPath_path present

/-- Two tags of the same path are one: their parents have the same path, and siblings have
different names. -/
theorem Rooted.eq_of_rootPath (rooted : forest.Rooted) (isPath : forest.RootPath id names)
    (also : forest.RootPath other names) : id = other := by
  induction isPath generalizing other with
  | @root id tag found isRoot =>
      generalize single : [tag.name] = names at also
      cases also with
      | root isTwin isRoot' =>
          exact rooted.siblings found isTwin (isRoot.trans isRoot'.symm) (List.cons.inj single).1
      | child _ _ above =>
          exact absurd (List.append_eq_singleton_iff.mp single.symm) (by simp [above.ne_nil])
  | @child id parent tag names found isParent above inductionHypothesis =>
      generalize longer : names ++ [tag.name] = all at also
      cases also with
      | root =>
          exact absurd (List.append_eq_singleton_iff.mp longer) (by simp [above.ne_nil])
      | child isTwin isParent' above' =>
          obtain ⟨rfl, sameName⟩ := List.append_inj' longer rfl
          obtain rfl := inductionHypothesis above'
          exact rooted.siblings found isTwin (isParent.trans isParent'.symm)
            (List.cons.inj sameName).1

/-! ## Descendants -/

theorem Rooted.lt_of_descends (rooted : forest.Rooted) (descends : forest.Descends id ns) :
    ns.index < id.index := by
  induction descends with
  | single above => exact rooted.parent?_lt above
  | tail _ above inductionHypothesis =>
      exact Nat.lt_trans (rooted.parent?_lt above) inductionHypothesis

theorem Rooted.isa_iff_descends (rooted : forest.Rooted) (id ns : TagId) :
    forest.isa id ns = true ↔ id = ns ∨ forest.Descends id ns := by
  constructor
  · intro isa
    generalize number : id.index = index
    induction index using Nat.strongRecOn generalizing id with
    | ind index inductionHypothesis =>
        rcases (rooted.isa_iff id ns).mp isa with same | ⟨parent, above, isa⟩
        · exact .inl same
        · have older := rooted.parent?_lt above
          rcases inductionHypothesis parent.index (by omega) parent isa rfl with rfl | descends
          · exact .inr (.single above)
          · exact .inr (.head above descends)
  · rintro (rfl | descends)
    · exact rooted.isa_self id
    · induction descends using Relation.TransGen.head_induction_on with
      | single above => exact (rooted.isa_iff _ ns).mpr (.inr ⟨ns, above, rooted.isa_self ns⟩)
      | head above _ inductionHypothesis =>
          exact (rooted.isa_iff _ ns).mpr (.inr ⟨_, above, inductionHypothesis⟩)

theorem Rooted.descends_iff_below (rooted : forest.Rooted) (id ns : TagId) :
    forest.Descends id ns ↔ forest.Below ns id := by
  rw [Below, rooted.isa_iff_descends]
  constructor
  · exact fun descends => ⟨fun same => Nat.ne_of_gt (rooted.lt_of_descends descends) (same ▸ rfl),
      .inr descends⟩
  · exact fun below => below.2.resolve_left below.1

/-! ## Names -/

theorem lookupBelow?_eq_find? (ns : TagId) (name : String) :
    forest.lookupBelow? ns name =
      (forest.candidates name).find? fun id => id ≠ ns && forest.isa id ns := by
  rw [lookupBelow?, candidates, List.find?_filter]
  congr 1
  funext id
  rw [Bool.and_comm]
  simp

section Linked

variable (linked : forest.Linked)

include linked

theorem Linked.isNamed_iff (id : TagId) (name : String) :
    forest.isNamed id name = true ↔
      forest.contains id = true ∧ name = forest.absoluteName id := by
  simp only [isNamed, Bool.and_eq_true, Bool.not_eq_true', beq_iff_eq, List.isEmpty_eq_false_iff]
  cases found : forest.find? id with
  | none => simp [linked.rooted.path_of_gone found, contains, found]
  | some tag =>
      have isParts := linked.parts_absoluteName found
      have notEmpty : forest.path id ≠ [] := isParts ▸ Text.parts_ne_nil '.' _
      have present : forest.contains id = true := (contains_iff id).mpr ⟨tag, found⟩
      simp only [ne_eq, notEmpty, not_false_eq_true, true_and, present]
      constructor
      · intro same
        rw [absoluteName, ← same, Text.joinWith_parts]
      · rintro rfl
        exact isParts

theorem Linked.mem_candidates_iff (name : String) (id : TagId) :
    id ∈ forest.candidates name ↔ forest.Answers (Text.parts '.' name) id := by
  rw [candidates, List.mem_filter, linked.mem_homonyms_iff]
  constructor
  · rintro ⟨⟨tag, found, -⟩, ends⟩
    exact ⟨(contains_iff id).mpr ⟨tag, found⟩, ends⟩
  · exact fun answers => ⟨linked.rooted.getLast?_of_answers (Text.parts_ne_nil '.' name) answers,
      answers.2⟩

theorem Linked.answers_iff (names : List String) (id : TagId) :
    forest.Answers names id ↔ ∃ path, forest.RootPath id path ∧ names <:+ path := by
  simp only [linked.rooted.rootPath_iff, Answers, endsWith, List.isSuffixOf_iff_suffix]
  constructor
  · exact fun both => ⟨forest.path id, ⟨both.1, rfl⟩, both.2⟩
  · rintro ⟨_, ⟨present, rfl⟩, ends⟩
    exact ⟨present, ends⟩

theorem Linked.addressed : forest.Addressed where
  path := linked.rooted.rootPath_iff
  absoluteName id names isPath := by
    obtain ⟨present, rfl⟩ := (linked.rooted.rootPath_iff id names).mp isPath
    obtain ⟨tag, found⟩ := (contains_iff id).mp present
    exact ⟨rfl, linked.parts_absoluteName found⟩
  isNamed := linked.isNamed_iff
  identified id other present otherPresent same := by
    obtain ⟨tag, found⟩ := (contains_iff id).mp present
    obtain ⟨twin, isTwin⟩ := (contains_iff other).mp otherPresent
    have samePath : forest.path other = forest.path id := by
      rw [← linked.parts_absoluteName found, ← linked.parts_absoluteName isTwin, same]
    have isPath := linked.rooted.rootPath_path otherPresent
    rw [samePath] at isPath
    exact linked.rooted.eq_of_rootPath (linked.rooted.rootPath_path present) isPath
  ascending name := (linked.pairwise_homonyms _).filter _
  candidates name id := (linked.mem_candidates_iff name id).trans (linked.answers_iff _ id)
  lookup? _ := rfl
  lookupBelow? ns name id := by
    rw [lookupBelow?_eq_find?, List.find?_eq_some_iff_append]
    have isDescendant (member : TagId) :
        (decide (member ≠ ns) && forest.isa member ns) = true ↔ forest.Descends member ns := by
      rw [linked.rooted.descends_iff_below, Below, Bool.and_eq_true, decide_eq_true_eq]
    simp only [isDescendant, Bool.not_eq_true', ← Bool.not_eq_true]
    constructor
    · rintro ⟨descends, before, after, parted, none⟩
      exact ⟨before, after, parted, descends, none⟩
    · rintro ⟨before, after, parted, descends, none⟩
      exact ⟨descends, before, after, parted, none⟩

end Linked

end Forest

end LifecycleGraph
