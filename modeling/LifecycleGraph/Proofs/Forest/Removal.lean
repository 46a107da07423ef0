import LifecycleGraph.Proofs.Forest.Growth

/-!
# Removing tags

A tag is removed with all that a walk from it comes to.  What is left is linked
again, and every tag that is left has its parent and its name as before.
-/

set_option autoImplicit false

namespace LifecycleGraph

namespace Forest

/-- A tag without one of its children. -/
def withoutChild (child : TagId) (tag : Tag) : Tag :=
  { tag with children := tag.children.filter (· ≠ child) }

variable {forest : Forest}

/-! ## Taking tags out of the arena -/

theorem find?_discard (forest : Forest) (id other : TagId) :
    (forest.discard id).find? other = if other = id then none else forest.find? other := by
  obtain ⟨index⟩ := id
  obtain ⟨otherIndex⟩ := other
  rw [discard]
  split
  · simp only [find?, Arena.find?_erase, TagId.mk.injEq]
  · rename_i gone
    split
    · rename_i same
      rw [same, gone]
    · rfl

@[simp] theorem next_discard (forest : Forest) (id : TagId) :
    (forest.discard id).arena.next = forest.arena.next := by
  rw [discard]
  split <;> simp

@[simp] theorem roots_discard (forest : Forest) (id : TagId) :
    (forest.discard id).roots = forest.roots := by
  rw [discard]
  split <;> rfl

/-- The tags of a name after a tag was taken out of them; no tags have no entry. -/
theorem find?_names_discard {id : TagId} {tag : Tag} (found : forest.find? id = some tag)
    (name : String) :
    (forest.discard id).names.find? name =
      if tag.name = name then
        if (((forest.names.find? name).getD []).filter (· ≠ id)).isEmpty then none
        else some (((forest.names.find? name).getD []).filter (· ≠ id))
      else forest.names.find? name := by
  simp only [discard, found]
  split
  · rename_i empty
    rw [Table.find?_erase]
    split
    · rename_i same
      subst same
      rw [if_pos empty]
    · rfl
  · rename_i left
    rw [Table.find?_insert]
    split
    · rename_i same
      subst same
      rw [if_neg left]
    · rfl

theorem Indexed.discard (indexed : forest.Indexed) (id : TagId) : (forest.discard id).Indexed := by
  cases found : forest.find? id with
  | none =>
      have same : forest.discard id = forest := by simp only [Forest.discard, found]
      rw [same]
      exact indexed
  | some tag =>
      refine ⟨fun name other => ?_, fun {name ids} listed => ?_⟩
      · have left : other ∈ ((forest.discard id).names.find? name).getD [] ↔
            other ∈ (forest.names.find? name).getD [] ∧ ¬ (tag.name = name ∧ other = id) := by
          rw [find?_names_discard found]
          by_cases same : tag.name = name
          · simp only [same, if_true, true_and]
            split
            · rename_i empty
              have nobody := List.isEmpty_iff.mp empty
              simp only [Option.getD_none, List.not_mem_nil, false_iff, not_and, not_not]
              intro member
              by_contra different
              have kept : other ∈
                  ((forest.names.find? name).getD []).filter (· ≠ id) :=
                List.mem_filter.mpr ⟨member, decide_eq_true different⟩
              rw [nobody] at kept
              cases kept
            · simp
          · simp [same]
        rw [left, indexed.exact name other, find?_discard]
        constructor
        · intro given
          obtain ⟨⟨entry, isEntry, isName⟩, notGone⟩ := given
          have different : other ≠ id := by
            intro same
            obtain rfl := same
            rw [found] at isEntry
            cases isEntry
            exact notGone ⟨isName, rfl⟩
          exact ⟨entry, by rw [if_neg different, isEntry], isName⟩
        · intro given
          obtain ⟨entry, isEntry, isName⟩ := given
          split at isEntry
          · cases isEntry
          · rename_i different
            exact ⟨⟨entry, isEntry, isName⟩, fun both => different both.2⟩
      · rw [find?_names_discard found] at listed
        split at listed
        · split at listed
          · cases listed
          · rename_i notEmpty
            cases listed
            refine ⟨fun isNil => notEmpty (List.isEmpty_iff.mpr isNil), ?_⟩
            cases held : forest.names.find? name with
            | none => exact .nil
            | some ids => exact ((indexed.ascending held).2).filter _
        · exact indexed.ascending listed

theorem find?_discardAll (ids : List TagId) (forest : Forest) (other : TagId) :
    (ids.foldl discard forest).find? other =
      if other ∈ ids then none else forest.find? other := by
  induction ids generalizing forest with
  | nil => simp
  | cons id rest inductionHypothesis =>
      rw [List.foldl_cons, inductionHypothesis, find?_discard]
      by_cases inRest : other ∈ rest
      · simp [inRest]
      · simp [inRest]

theorem Indexed.discardAll (ids : List TagId) (indexed : forest.Indexed) :
    (ids.foldl Forest.discard forest).Indexed := by
  induction ids generalizing forest with
  | nil => exact indexed
  | cons id rest inductionHypothesis => exact inductionHypothesis (indexed.discard id)

theorem next_discardAll (ids : List TagId) (forest : Forest) :
    (ids.foldl discard forest).arena.next = forest.arena.next := by
  induction ids generalizing forest with
  | nil => rfl
  | cons id rest inductionHypothesis =>
      rw [List.foldl_cons, inductionHypothesis, next_discard]

theorem roots_discardAll (ids : List TagId) (forest : Forest) :
    (ids.foldl discard forest).roots = forest.roots := by
  induction ids generalizing forest with
  | nil => rfl
  | cons id rest inductionHypothesis =>
      rw [List.foldl_cons, inductionHypothesis, roots_discard]

/-! ## Taking a tag from among its siblings -/

theorem withoutChild_eq_self {child : TagId} {tag : Tag} (absent : child ∉ tag.children) :
    withoutChild child tag = tag := by
  have same : tag.children.filter (· ≠ child) = tag.children :=
    List.filter_eq_self.mpr fun other isChild =>
      decide_eq_true fun same => absent (same ▸ isChild)
  simp only [withoutChild, same]

theorem find?_detach (rooted : forest.Rooted) (id other : TagId) :
    (forest.detach id).find? other = (forest.find? other).map (withoutChild id) := by
  have untouched (notParent : forest.parent? id ≠ some other) :
      forest.find? other = (forest.find? other).map (withoutChild id) := by
    cases found : forest.find? other with
    | none => rfl
    | some tag =>
        have absent : id ∉ tag.children := by
          intro isChild
          obtain ⟨below, foundBelow, isParent⟩ := rooted.downward found isChild
          exact notParent ((parent?_eq_some_iff id other).mpr ⟨below, foundBelow, isParent⟩)
        rw [Option.map_some, withoutChild_eq_self absent]
  cases above : forest.parent? id with
  | none =>
      have atRoot : (forest.detach id).arena = forest.arena := by
        rw [parent?] at above
        rw [detach, above]
      rw [find?, atRoot]
      exact untouched (by simp [above])
  | some parent =>
      have below : forest.detach id = forest.adjust parent (withoutChild id) := by
        rw [parent?] at above
        rw [detach, above]
        rfl
      rw [below]
      obtain ⟨parentIndex⟩ := parent
      obtain ⟨otherIndex⟩ := other
      have modified : (forest.adjust ⟨parentIndex⟩ (withoutChild id)).find? ⟨otherIndex⟩ =
          if otherIndex = parentIndex then
            (forest.find? ⟨otherIndex⟩).map (withoutChild id)
          else forest.find? ⟨otherIndex⟩ :=
        Arena.find?_modify forest.arena parentIndex otherIndex (withoutChild id)
      refine modified.trans ?_
      split
      · rfl
      · rename_i different
        refine untouched fun same => different ?_
        rw [above] at same
        cases same
        rfl

theorem next_detach (forest : Forest) (id : TagId) :
    (forest.detach id).arena.next = forest.arena.next := by
  rw [detach]
  split <;> simp [adjust]

theorem names_detach (forest : Forest) (id : TagId) :
    (forest.detach id).names = forest.names := by
  rw [detach]
  split <;> rfl

theorem roots_detach (rooted : forest.Rooted) (id : TagId) :
    (forest.detach id).roots = forest.roots.filter (· ≠ id) := by
  rw [detach]
  split
  · rename_i parent above
    refine (List.filter_eq_self.mpr fun root isRoot => decide_eq_true ?_).symm
    intro same
    obtain rfl := same
    obtain ⟨tag, found, noParent⟩ := (rooted.roots root).mp isRoot
    rw [found, Option.bind_some, noParent] at above
    cases above
  · rfl

theorem Indexed.detach (indexed : forest.Indexed) (rooted : forest.Rooted) (id : TagId) :
    (forest.detach id).Indexed where
  exact := by
    intro name other
    rw [names_detach, indexed.exact name other, find?_detach rooted]
    constructor
    · intro given
      obtain ⟨tag, found, isName⟩ := given
      exact ⟨withoutChild id tag, by rw [found, Option.map_some], isName⟩
    · intro given
      obtain ⟨tag', found, isName⟩ := given
      obtain ⟨tag, isTag, rfl⟩ := Option.map_eq_some_iff.mp found
      exact ⟨tag, isTag, isName⟩
  ascending := by
    intro name ids listed
    rw [names_detach] at listed
    exact indexed.ascending listed

/-! ## Removing a tag with all below it -/

/-- The tags of the walk are gone, and the others are left without the removed
tag as their child. -/
theorem find?_remove (rooted : forest.Rooted) (id other : TagId) :
    (forest.remove id).2.find? other =
      if other ∈ forest.walk id then none else (forest.find? other).map (withoutChild id) := by
  unfold remove
  simp only
  split
  · -- Where there is no walk there is no tag, and nobody has it as a child.
    rename_i empty
    rw [List.isEmpty_iff.mp empty]
    simp only [List.not_mem_nil, if_false]
    cases found : forest.find? other with
    | none => rfl
    | some tag =>
        have absent : id ∉ tag.children := by
          intro isChild
          obtain ⟨below, foundBelow, -⟩ := rooted.downward found isChild
          rw [rooted.walk_eq foundBelow] at empty
          cases empty
        rw [Option.map_some, withoutChild_eq_self absent]
  · rw [find?_discardAll, find?_detach rooted]

theorem find?_of_remove (rooted : forest.Rooted) {id other : TagId} {tag' : Tag}
    (found : (forest.remove id).2.find? other = some tag') :
    other ∉ forest.walk id ∧ ∃ tag, forest.find? other = some tag ∧ tag' = withoutChild id tag := by
  rw [find?_remove rooted] at found
  split at found
  · cases found
  · rename_i stays
    obtain ⟨tag, isTag, same⟩ := Option.map_eq_some_iff.mp found
    exact ⟨stays, tag, isTag, same.symm⟩

theorem find?_remove_of_find? (rooted : forest.Rooted) {id other : TagId} {tag : Tag}
    (found : forest.find? other = some tag) (stays : other ∉ forest.walk id) :
    (forest.remove id).2.find? other = some (withoutChild id tag) := by
  rw [find?_remove rooted, if_neg stays, found, Option.map_some]

theorem next_remove (forest : Forest) (id : TagId) :
    (forest.remove id).2.arena.next = forest.arena.next := by
  unfold remove
  simp only
  split
  · rfl
  · rw [next_discardAll, next_detach]

theorem contains_remove (rooted : forest.Rooted) (id other : TagId) :
    (forest.remove id).2.contains other = true ↔
      forest.contains other = true ∧ other ∉ forest.walk id := by
  rw [contains_iff, contains_iff]
  constructor
  · intro given
    obtain ⟨tag', found⟩ := given
    obtain ⟨stays, tag, isTag, -⟩ := find?_of_remove rooted found
    exact ⟨⟨tag, isTag⟩, stays⟩
  · intro given
    obtain ⟨⟨tag, isTag⟩, stays⟩ := given
    exact ⟨_, find?_remove_of_find? rooted isTag stays⟩

namespace Rooted

/-- What stands above a tag that stays, stays. -/
theorem parent_not_mem_walk (rooted : forest.Rooted) {id other parent : TagId}
    (stays : other ∉ forest.walk id) (above : forest.parent? other = some parent) :
    parent ∉ forest.walk id := by
  intro reached
  obtain ⟨tag, found, isParent⟩ := (parent?_eq_some_iff other parent).mp above
  obtain ⟨-, upper, foundUpper, isChild⟩ := rooted.upward found isParent
  exact stays (rooted.child_mem_walk reached foundUpper isChild)

/-- What stands below a tag that stays, stays as well unless it is the start. -/
theorem child_not_mem_walk (rooted : forest.Rooted) {id other child : TagId}
    (stays : other ∉ forest.walk id) (above : forest.parent? child = some other)
    (notStart : child ≠ id) : child ∉ forest.walk id := by
  intro reached
  obtain ⟨-, isa⟩ := rooted.isa_of_mem_walk reached
  rcases (rooted.isa_iff child id).mp isa with same | ⟨parent, isParent, isa⟩
  · exact notStart same
  · rw [above] at isParent
    cases isParent
    exact stays ((rooted.mem_walk_iff id other).mpr ⟨rooted.contains_parent above, isa⟩)

theorem ne_of_not_mem_walk (rooted : forest.Rooted) {id other : TagId} {tag : Tag}
    (stays : other ∉ forest.walk id) (found : forest.find? other = some tag) : other ≠ id := by
  intro same
  obtain rfl := same
  rw [rooted.walk_eq found] at stays
  exact stays (List.mem_cons_self ..)

theorem roots_remove (rooted : forest.Rooted) (id : TagId) :
    (forest.remove id).2.roots = forest.roots.filter (· ≠ id) := by
  unfold Forest.remove
  simp only
  split
  · -- Where there is no walk there is no tag, and so no root either.
    rename_i empty
    refine (List.filter_eq_self.mpr fun root isRoot => decide_eq_true ?_).symm
    intro same
    subst same
    obtain ⟨tag, found, -⟩ := (rooted.roots root).mp isRoot
    rw [rooted.walk_eq found] at empty
    cases empty
  · rw [roots_discardAll, roots_detach rooted]

theorem mem_roots_remove (rooted : forest.Rooted) (id other : TagId) :
    other ∈ (forest.remove id).2.roots ↔ other ∈ forest.roots ∧ other ≠ id := by
  rw [rooted.roots_remove, List.mem_filter, decide_eq_true_iff]

/-- A root that is not removed itself stands below nothing that is. -/
theorem root_not_mem_walk (rooted : forest.Rooted) {id other : TagId} {tag : Tag}
    (isTag : forest.find? other = some tag) (isRoot : tag.parent = none) (notStart : other ≠ id) :
    other ∉ forest.walk id := by
  intro reached
  rcases (rooted.isa_iff other id).mp (rooted.isa_of_mem_walk reached).2 with
    same | ⟨parent, above, -⟩
  · exact notStart same
  · obtain ⟨tag', isTag', isParent⟩ := (parent?_eq_some_iff other parent).mp above
    rw [isTag] at isTag'
    cases isTag'
    rw [isRoot] at isParent
    cases isParent

theorem remove (rooted : forest.Rooted) (id : TagId) : (forest.remove id).2.Rooted where
  stamped := by
    intro other tag' found
    obtain ⟨-, tag, isTag, rfl⟩ := find?_of_remove rooted found
    have stamp : tag.id = other := rooted.stamped isTag
    exact stamp
  upward := by
    intro other tag' parent found isParent
    obtain ⟨stays, tag, isTag, rfl⟩ := find?_of_remove rooted found
    obtain ⟨older, above, foundAbove, isChild⟩ := rooted.upward isTag isParent
    have parentStays := rooted.parent_not_mem_walk stays
      ((parent?_eq_some_iff other parent).mpr ⟨tag, isTag, isParent⟩)
    have notStart := rooted.ne_of_not_mem_walk stays isTag
    exact ⟨older, _, find?_remove_of_find? rooted foundAbove parentStays,
      List.mem_filter.mpr ⟨isChild, decide_eq_true notStart⟩⟩
  downward := by
    intro other tag' child found isChild
    obtain ⟨stays, tag, isTag, rfl⟩ := find?_of_remove rooted found
    obtain ⟨isChild, notStart⟩ := List.mem_filter.mp isChild
    obtain ⟨below, foundBelow, isParent⟩ := rooted.downward isTag isChild
    have childStays := rooted.child_not_mem_walk stays
      ((parent?_eq_some_iff child other).mpr ⟨below, foundBelow, isParent⟩)
      (of_decide_eq_true notStart)
    exact ⟨_, find?_remove_of_find? rooted foundBelow childStays, isParent⟩
  roots := by
    intro other
    rw [rooted.mem_roots_remove, rooted.roots other]
    constructor
    · intro given
      obtain ⟨⟨tag, isTag, isRoot⟩, notStart⟩ := given
      exact ⟨withoutChild id tag, find?_remove_of_find? rooted isTag
        (rooted.root_not_mem_walk isTag isRoot notStart), isRoot⟩
    · intro given
      obtain ⟨tag', found, isRoot⟩ := given
      obtain ⟨stays, tag, isTag, rfl⟩ := find?_of_remove rooted found
      exact ⟨⟨tag, isTag, isRoot⟩, rooted.ne_of_not_mem_walk stays isTag⟩
  childrenNodup := by
    intro other tag' found
    obtain ⟨-, tag, isTag, rfl⟩ := find?_of_remove rooted found
    exact (rooted.childrenNodup isTag).filter _
  rootsNodup := by
    rw [rooted.roots_remove]
    exact rooted.rootsNodup.filter _
  siblings := by
    intro other twinId tag' twin' found foundTwin parents names
    obtain ⟨-, tag, isTag, rfl⟩ := find?_of_remove rooted found
    obtain ⟨-, twin, isTwin, rfl⟩ := find?_of_remove rooted foundTwin
    exact rooted.siblings isTag isTwin parents names

end Rooted

theorem Linked.remove (linked : forest.Linked) (id : TagId) : (forest.remove id).2.Linked where
  rooted := linked.rooted.remove id
  indexed := by
    unfold Forest.remove
    simp only
    split
    · exact linked.indexed
    · exact (linked.indexed.detach linked.rooted id).discardAll _
  named := by
    intro other tag' found
    obtain ⟨-, tag, isTag, rfl⟩ := find?_of_remove linked.rooted found
    have valid : validName tag.name = true := linked.named isTag
    exact valid

/-- A tag that is left is a kind of the same tags as before. -/
theorem isa_remove (linked : forest.Linked) {id other : TagId}
    (left : (forest.remove id).2.contains other = true) (target : TagId) :
    (forest.remove id).2.isa other target = forest.isa other target := by
  refine ((linked.remove id).rooted.isa_congr linked.rooted ?_ left target).symm
  intro member present
  obtain ⟨tag', found⟩ := (contains_iff member).mp present
  obtain ⟨-, tag, isTag, rfl⟩ := find?_of_remove linked.rooted found
  simp only [parent?, found, isTag, Option.bind_some, withoutChild]

/-! ## What stays of a forest -/

/-- No tag that is gone comes back, and a tag that is left is a kind of the same
tags as before. -/
def Follows (old new : Forest) : Prop :=
  ∀ tag : TagId, tag.index < old.arena.next →
    tag.index < new.arena.next ∧
      (new.contains tag = true →
        old.contains tag = true ∧ ∀ target, new.isa tag target = old.isa tag target)

theorem follows_self (forest : Forest) : forest.Follows forest :=
  fun _ given => ⟨given, fun present => ⟨present, fun _ => rfl⟩⟩

theorem LinkedFrom.follows {start forest : Forest} (grown : LinkedFrom start forest)
    (linked : start.Linked) : start.Follows forest := by
  intro tag given
  refine ⟨Nat.lt_of_lt_of_le given grown.2.next_le, fun present => ?_⟩
  have was : start.contains tag = true := by
    by_contra gone
    rw [grown.2.gone (by simpa using gone) given] at present
    cases present
  exact ⟨was, grown.2.isa linked.rooted grown.1.rooted was⟩

theorem follows_remove (linked : forest.Linked) (id : TagId) :
    forest.Follows (forest.remove id).2 := by
  intro tag given
  rw [next_remove]
  refine ⟨given, fun left => ?_⟩
  exact ⟨((contains_remove linked.rooted id tag).mp left).1, isa_remove linked left⟩

end Forest

end LifecycleGraph
