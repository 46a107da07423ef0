import Mathlib.Data.List.Nodup
import Mathlib.Data.List.Sort
import LifecycleGraph.Proofs.Forest.Lookup
import LifecycleGraph.Proofs.Forest.Removal

/-!
# Walks through a forest

A walk comes to each tag once, and the walks of two siblings have no tag in common.  So the
walks of all roots together list each tag that is there once.  When a tag is removed with
all below it, whatever lists tags only loses those that are gone: children, roots, walks,
the list of all tags and the index of names.
-/

set_option autoImplicit false

namespace LifecycleGraph

namespace Forest

variable {forest : Forest}

namespace Rooted

section Walks

variable (rooted : forest.Rooted)

include rooted

/-! ## Tags above a tag -/

theorem index_le_of_isa {id target : TagId} (isa : forest.isa id target = true) :
    target.index ≤ id.index := by
  generalize number : id.index = index
  induction index using Nat.strongRecOn generalizing id with
  | ind index inductionHypothesis =>
      rcases (rooted.isa_iff id target).mp isa with rfl | ⟨parent, above, isa⟩
      · exact Nat.le_of_eq number
      · have older := rooted.parent?_lt above
        have further := inductionHypothesis parent.index (by omega) isa rfl
        omega

/-- Of two tags that one is a kind of, one is a kind of the other. -/
theorem isa_or_isa {id one another : TagId} (isa : forest.isa id one = true)
    (also : forest.isa id another = true) :
    forest.isa one another = true ∨ forest.isa another one = true := by
  generalize number : id.index = index
  induction index using Nat.strongRecOn generalizing id with
  | ind index inductionHypothesis =>
      rcases (rooted.isa_iff id one).mp isa with rfl | ⟨parent, above, isaOne⟩
      · exact .inl also
      · rcases (rooted.isa_iff id another).mp also with rfl | ⟨again, isAgain, isaOther⟩
        · exact .inr isa
        · obtain rfl := Option.some.inj (above.symm.trans isAgain)
          have older := rooted.parent?_lt above
          exact inductionHypothesis parent.index (by omega) isaOne isaOther rfl

/-- Below one parent, or at the roots, no tag is a kind of another one. -/
theorem eq_of_isa_of_siblings {one another : TagId}
    (siblings : forest.parent? one = forest.parent? another)
    (isa : forest.isa one another = true) : one = another := by
  rcases (rooted.isa_iff one another).mp isa with same | ⟨parent, above, isaParent⟩
  · exact same
  · have older := rooted.parent?_lt (siblings.symm.trans above)
    have younger := rooted.index_le_of_isa isaParent
    omega

/-- Every tag that is there stands below a root. -/
theorem exists_root {id : TagId} (present : forest.contains id = true) :
    ∃ root ∈ forest.roots, forest.isa id root = true := by
  generalize number : id.index = index
  induction index using Nat.strongRecOn generalizing id with
  | ind index inductionHypothesis =>
      obtain ⟨tag, found⟩ := (contains_iff id).mp present
      cases isParent : tag.parent with
      | none => exact ⟨id, (rooted.roots id).mpr ⟨tag, found, isParent⟩, rooted.isa_self id⟩
      | some parent =>
          have above := (parent?_eq_some_iff id parent).mpr ⟨tag, found, isParent⟩
          have older := rooted.parent?_lt above
          obtain ⟨root, isRoot, isa⟩ :=
            inductionHypothesis parent.index (by omega) (rooted.contains_parent above) rfl
          exact ⟨root, isRoot, (rooted.isa_iff id root).mpr (.inr ⟨parent, above, isa⟩)⟩

/-! ## No tag twice -/

theorem disjoint_walk {one another : TagId} (different : one ≠ another)
    (siblings : forest.parent? one = forest.parent? another) :
    (forest.walk one).Disjoint (forest.walk another) := by
  intro member onOne onOther
  rcases rooted.isa_or_isa (rooted.isa_of_mem_walk onOne).2 (rooted.isa_of_mem_walk onOther).2 with
    isa | isa
  · exact different (rooted.eq_of_isa_of_siblings siblings isa)
  · exact different (rooted.eq_of_isa_of_siblings siblings.symm isa).symm

theorem nodup_flatMap_walk {ids : List TagId} (nodup : ids.Nodup) (parent : Option TagId)
    (siblings : ∀ id ∈ ids, forest.parent? id = parent)
    (each : ∀ id ∈ ids, (forest.walk id).Nodup) : (ids.flatMap forest.walk).Nodup := by
  refine List.nodup_flatMap.mpr ⟨each, ?_⟩
  refine nodup.pairwise_of_forall_ne fun one isOne another isOther different => ?_
  exact rooted.disjoint_walk different ((siblings one isOne).trans (siblings another isOther).symm)

theorem parent?_of_child {id child : TagId} {tag : Tag} (found : forest.find? id = some tag)
    (isChild : child ∈ tag.children) : forest.parent? child = some id := by
  obtain ⟨below, foundBelow, isParent⟩ := rooted.downward found isChild
  exact (parent?_eq_some_iff child id).mpr ⟨below, foundBelow, isParent⟩

theorem nodup_walk (id : TagId) : (forest.walk id).Nodup := by
  generalize left : forest.arena.next - id.index = count
  induction count using Nat.strongRecOn generalizing id with
  | ind count inductionHypothesis =>
      cases found : forest.find? id with
      | none =>
          rw [walk_of_gone found]
          exact List.nodup_nil
      | some tag =>
          have present := lt_next_of_find? found
          rw [rooted.walk_eq found, List.nodup_cons]
          refine ⟨fun below => ?_, ?_⟩
          · -- The tags below are younger than the start.
            obtain ⟨child, isChild, onWalk⟩ := List.mem_flatMap.mp below
            have older := rooted.parent?_lt (rooted.parent?_of_child found isChild)
            have younger := rooted.index_le_of_isa (rooted.isa_of_mem_walk onWalk).2
            omega
          · refine rooted.nodup_flatMap_walk (rooted.childrenNodup found) (some id)
              (fun child isChild => rooted.parent?_of_child found isChild)
              fun child isChild => ?_
            have older := rooted.parent?_lt (rooted.parent?_of_child found isChild)
            exact inductionHypothesis _ (by omega) child rfl

theorem nodup_all : forest.all.Nodup := by
  refine rooted.nodup_flatMap_walk rooted.rootsNodup none (fun root isRoot => ?_)
    fun root _ => rooted.nodup_walk root
  obtain ⟨tag, found, isParent⟩ := (rooted.roots root).mp isRoot
  rw [parent?, found, Option.bind_some, isParent]

theorem mem_all_iff (id : TagId) : id ∈ forest.all ↔ forest.contains id = true := by
  rw [all, List.mem_flatMap]
  constructor
  · rintro ⟨root, -, onWalk⟩
    exact (rooted.isa_of_mem_walk onWalk).1
  · intro present
    obtain ⟨root, isRoot, isa⟩ := rooted.exists_root present
    exact ⟨root, isRoot, (rooted.mem_walk_iff root id).mpr ⟨present, isa⟩⟩

theorem mem_walk_iff_isa {id : TagId} (present : forest.contains id = true) (member : TagId) :
    member ∈ forest.walk id ↔ forest.isa member id = true := by
  rw [rooted.mem_walk_iff, and_iff_right_iff_imp]
  intro isa
  cases gone : forest.contains member with
  | true => rfl
  | false =>
      rw [rooted.eq_of_isa_of_gone gone isa, present] at gone
      cases gone

/-! ## Walks after a removal -/

omit rooted in
/-- Where each walk loses some tags and that of a removed tag loses all, the walks of a row of
tags lose those tags together. -/
theorem flatMap_walk_remove {id : TagId} {ids : List TagId}
    (each : ∀ other ∈ ids, (forest.remove id).2.walk other =
      (forest.walk other).filter (· ∉ forest.walk id)) :
    (ids.filter (· ≠ id)).flatMap (forest.remove id).2.walk =
      (ids.flatMap forest.walk).filter (· ∉ forest.walk id) := by
  induction ids with
  | nil => rfl
  | cons first rest inductionHypothesis =>
      have onwards := inductionHypothesis fun other member =>
        each other (List.mem_cons_of_mem _ member)
      rw [List.flatMap_cons, List.filter_append, ← onwards, ← each first (List.mem_cons_self ..)]
      by_cases same : first = id
      · have gone : (forest.remove id).2.walk first = [] := by
          rw [each first (List.mem_cons_self ..), same]
          exact List.filter_eq_nil_iff.mpr fun member onWalk => by simpa using onWalk
        rw [List.filter_cons_of_neg (by simpa using same), gone, List.nil_append]
      · rw [List.filter_cons_of_pos (by simpa using same), List.flatMap_cons]

theorem walk_remove (id other : TagId) :
    (forest.remove id).2.walk other = (forest.walk other).filter (· ∉ forest.walk id) := by
  generalize left : forest.arena.next - other.index = count
  induction count using Nat.strongRecOn generalizing other with
  | ind count inductionHypothesis =>
      cases found : forest.find? other with
      | none =>
          have gone : (forest.remove id).2.find? other = none := by
            rw [find?_remove rooted, found, Option.map_none, ite_self]
          rw [walk_of_gone gone, walk_of_gone found, List.filter_nil]
      | some tag =>
          have present := lt_next_of_find? found
          by_cases removed : other ∈ forest.walk id
          · have gone : (forest.remove id).2.find? other = none := by
              rw [find?_remove rooted, if_pos removed]
            rw [walk_of_gone gone]
            refine (List.filter_eq_nil_iff.mpr fun member onWalk => ?_).symm
            have low := rooted.isa_of_mem_walk onWalk
            have high := rooted.isa_of_mem_walk removed
            simpa using (rooted.mem_walk_iff id member).mpr
              ⟨low.1, rooted.isa_trans low.2 high.2⟩
          · have stays := find?_remove_of_find? rooted found removed
            rw [(rooted.remove id).walk_eq stays, rooted.walk_eq found,
              List.filter_cons_of_pos (by simpa using removed)]
            refine congrArg (other :: ·) (flatMap_walk_remove fun child isChild => ?_)
            have older := rooted.parent?_lt (rooted.parent?_of_child found isChild)
            exact inductionHypothesis _ (by omega) child rfl

/-- The tags that are left are listed in the order in which they were. -/
theorem all_remove (id : TagId) :
    (forest.remove id).2.all = forest.all.filter (· ∉ forest.walk id) := by
  rw [all, rooted.roots_remove, all]
  exact flatMap_walk_remove fun root _ => rooted.walk_remove id root

end Walks

/-! ## Lists of tags after a removal -/

variable (rooted : forest.Rooted)

include rooted

/-- Of the children of a tag that stays only the start of the walk is gone. -/
theorem children_remove {id other : TagId} {tag : Tag} (found : forest.find? other = some tag)
    (stays : other ∉ forest.walk id) :
    (withoutChild id tag).children = tag.children.filter (· ∉ forest.walk id) := by
  refine List.filter_congr fun child isChild => decide_eq_decide.mpr ⟨fun notStart => ?_, ?_⟩
  · exact rooted.child_not_mem_walk stays (rooted.parent?_of_child found isChild) notStart
  · rintro childStays rfl
    obtain ⟨below, foundBelow, -⟩ := rooted.downward found isChild
    exact rooted.ne_of_not_mem_walk childStays foundBelow rfl

theorem find?_remove_eq (id other : TagId) :
    (forest.remove id).2.find? other =
      if other ∈ forest.walk id then none
      else (forest.find? other).map fun tag =>
        { tag with children := tag.children.filter (· ∉ forest.walk id) } := by
  rw [find?_remove rooted]
  split
  · rfl
  · rename_i stays
    refine Option.map_congr fun tag found => ?_
    rw [← rooted.children_remove found stays]
    rfl

theorem roots_remove_eq (id : TagId) :
    (forest.remove id).2.roots = forest.roots.filter (· ∉ forest.walk id) := by
  rw [rooted.roots_remove]
  refine List.filter_congr fun root isRoot => decide_eq_decide.mpr ?_
  obtain ⟨tag, found, isParent⟩ := (rooted.roots root).mp isRoot
  exact ⟨rooted.root_not_mem_walk found isParent, fun stays => rooted.ne_of_not_mem_walk stays found⟩

end Rooted

theorem Linked.homonyms_remove (linked : forest.Linked) (id : TagId) (names : List String) :
    (forest.remove id).2.homonyms names =
      (forest.homonyms names).filter (· ∉ forest.walk id) := by
  refine ((linked.remove id).pairwise_homonyms names).eq_of_mem_iff
    ((linked.pairwise_homonyms names).filter _) fun other => ?_
  rw [(linked.remove id).mem_homonyms_iff, List.mem_filter, linked.mem_homonyms_iff,
    find?_remove linked.rooted]
  by_cases isGone : other ∈ forest.walk id
  · simp [isGone]
  · simp [isGone, withoutChild]

/-- A forest is another one without some tags.  Whatever lists tags has lost those and keeps
the order of the others. -/
structure Pruned (gone : List TagId) (old new : Forest) : Prop where
  tags : ∀ id, new.find? id =
    if id ∈ gone then none
    else (old.find? id).map fun tag =>
      { tag with children := tag.children.filter (· ∉ gone) }
  roots : new.roots = old.roots.filter (· ∉ gone)
  walks : ∀ id, new.walk id = (old.walk id).filter (· ∉ gone)
  everyTag : new.all = old.all.filter (· ∉ gone)
  named : ∀ names, new.homonyms names = (old.homonyms names).filter (· ∉ gone)

theorem Linked.pruned_remove (linked : forest.Linked) (id : TagId) :
    Pruned (forest.walk id) forest (forest.remove id).2 where
  tags := linked.rooted.find?_remove_eq id
  roots := linked.rooted.roots_remove_eq id
  walks := linked.rooted.walk_remove id
  everyTag := linked.rooted.all_remove id
  named := linked.homonyms_remove id

/-! ## Tags that are not there -/

/-- No list of tags has a tag, and no look-up finds it. -/
structure Absent (forest : Forest) (id : TagId) : Prop where
  gone : forest.contains id = false
  named : ∀ names, id ∉ forest.homonyms names
  candidates : ∀ name, id ∉ forest.candidates name
  lookup : ∀ name, forest.lookup? name ≠ some id
  lookupBelow : ∀ ns name, forest.lookupBelow? ns name ≠ some id
  child : ∀ parent name, forest.child? parent name ≠ some id
  sibling : ∀ parent, id ∉ forest.siblings parent
  walked : ∀ start, id ∉ forest.walk start
  everyTag : id ∉ forest.all

theorem Rooted.contains_of_mem_siblings (rooted : forest.Rooted) {parent : Option TagId}
    {id : TagId} (member : id ∈ forest.siblings parent) : forest.contains id = true := by
  cases parent with
  | none =>
      obtain ⟨tag, found, -⟩ := (rooted.roots id).mp member
      exact (contains_iff id).mpr ⟨tag, found⟩
  | some parent =>
      cases found : forest.find? parent with
      | none =>
          rw [Forest.siblings, found] at member
          cases member
      | some tag =>
          rw [Forest.siblings, found] at member
          obtain ⟨below, foundBelow, -⟩ := rooted.downward found member
          exact (contains_iff id).mpr ⟨below, foundBelow⟩

/-- Whatever is listed or found is there. -/
theorem Linked.absent (linked : forest.Linked) {id : TagId} (gone : forest.contains id = false) :
    forest.Absent id := by
  have notThere (present : forest.contains id = true) : False := by
    rw [gone] at present
    cases present
  exact {
    gone
    named := fun _ member => notThere (contains_of_mem_homonyms linked member)
    candidates := fun _ member =>
      notThere (contains_of_mem_homonyms linked (List.mem_of_mem_filter member))
    lookup := fun _ found => notThere (contains_of_lookup? linked found)
    lookupBelow := fun _ _ found => notThere (contains_of_lookupBelow? linked found)
    child := fun _ _ found => notThere (contains_of_child? found)
    sibling := fun _ member => notThere (linked.rooted.contains_of_mem_siblings member)
    walked := fun start member => notThere ((linked.rooted.mem_walk_iff start id).mp member).1
    everyTag := fun member => notThere ((linked.rooted.mem_all_iff id).mp member) }

end Forest

end LifecycleGraph
