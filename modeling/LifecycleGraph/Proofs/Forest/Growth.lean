import LifecycleGraph.Proofs.Change
import LifecycleGraph.Proofs.Forest.Lineage

/-!
# Growing forests

Adding tags and describing them keeps a forest linked, and keeps every tag that
was there with its name and its parent.  Numbers of tags that are gone are not
given again.  So a tag stays a kind of what it was a kind of.
-/

set_option autoImplicit false

namespace LifecycleGraph

namespace Forest

/-- The second forest has all tags of the first, and what it has more is younger. -/
structure Grows (old new : Forest) : Prop where
  next_le : old.arena.next ≤ new.arena.next
  kept : ∀ {id tag}, old.find? id = some tag →
    ∃ tag', new.find? id = some tag' ∧ tag'.parent = tag.parent ∧ tag'.name = tag.name
  young : ∀ {id tag}, new.find? id = some tag →
    old.contains id = true ∨ old.arena.next ≤ id.index

namespace Grows

theorem refl (forest : Forest) : forest.Grows forest where
  next_le := Nat.le_refl _
  kept := fun {_ tag} found => ⟨tag, found, rfl, rfl⟩
  young := fun {id tag} found => .inl ((contains_iff id).mpr ⟨tag, found⟩)

theorem trans {first second third : Forest} (one : first.Grows second)
    (two : second.Grows third) : first.Grows third where
  next_le := Nat.le_trans one.next_le two.next_le
  kept := by
    intro id tag found
    obtain ⟨tag', found', parents, names⟩ := one.kept found
    obtain ⟨tag'', found'', parents', names'⟩ := two.kept found'
    exact ⟨tag'', found'', parents'.trans parents, names'.trans names⟩
  young := by
    intro id tag found
    rcases two.young found with present | younger
    · obtain ⟨tag', found'⟩ := (contains_iff id).mp present
      exact one.young found'
    · exact .inr (Nat.le_trans one.next_le younger)

variable {old new : Forest}

theorem contains (grows : old.Grows new) {id : TagId} (present : old.contains id = true) :
    new.contains id = true := by
  obtain ⟨tag, found⟩ := (contains_iff id).mp present
  obtain ⟨tag', found', -⟩ := grows.kept found
  exact (contains_iff id).mpr ⟨tag', found'⟩

theorem gone (grows : old.Grows new) {id : TagId} (gone : old.contains id = false)
    (given : id.index < old.arena.next) : new.contains id = false := by
  by_contra present
  obtain ⟨tag, found⟩ := (contains_iff id).mp (Bool.not_eq_false _ ▸ present)
  rcases grows.young found with was | younger
  · rw [gone] at was
    cases was
  · omega

theorem parent? (grows : old.Grows new) {id : TagId} (present : old.contains id = true) :
    new.parent? id = old.parent? id := by
  obtain ⟨tag, found⟩ := (contains_iff id).mp present
  obtain ⟨tag', found', parents, -⟩ := grows.kept found
  simp only [Forest.parent?, found, found', Option.bind_some, parents]

/-- A tag that was there is a kind of the same tags as before. -/
theorem isa (grows : old.Grows new) (oldRooted : old.Rooted) (newRooted : new.Rooted)
    {id : TagId} (present : old.contains id = true) (target : TagId) :
    new.isa id target = old.isa id target :=
  oldRooted.isa_congr newRooted (fun _ => grows.parent?) present target

end Grows

/-- Forests in which the same is found are the same. -/
theorem ext_find? {forest other : Forest} (roots : forest.roots = other.roots)
    (names : forest.names = other.names) (next : forest.arena.next = other.arena.next)
    (same : ∀ id, forest.find? id = other.find? id) : forest = other := by
  have arena := Arena.ext_find? next fun index => same ⟨index⟩
  cases forest
  cases other
  cases roots
  cases names
  cases arena
  rfl

/-! ## Describing a tag -/

theorem find?_adjust (forest : Forest) (id other : TagId) (change : Tag → Tag) :
    (forest.adjust id change).find? other =
      if other = id then (forest.find? other).map change else forest.find? other := by
  obtain ⟨index⟩ := id
  obtain ⟨otherIndex⟩ := other
  simp only [find?, adjust, Arena.find?_modify, TagId.mk.injEq]

/-- A change that leaves a tag its place in the forest. -/
def Descriptive (change : Tag → Tag) : Prop :=
  ∀ tag, (change tag).name = tag.name ∧ (change tag).id = tag.id ∧
    (change tag).parent = tag.parent ∧ (change tag).children = tag.children

section Describe

variable {forest : Forest} {id : TagId} {change : Tag → Tag}

theorem find?_of_adjust (descriptive : Descriptive change) {other : TagId} {tag' : Tag}
    (found : (forest.adjust id change).find? other = some tag') :
    ∃ tag, forest.find? other = some tag ∧ tag'.name = tag.name ∧ tag'.id = tag.id ∧
      tag'.parent = tag.parent ∧ tag'.children = tag.children := by
  rw [find?_adjust] at found
  split at found
  · obtain ⟨tag, isTag, rfl⟩ := Option.map_eq_some_iff.mp found
    exact ⟨tag, isTag, descriptive tag⟩
  · exact ⟨tag', found, rfl, rfl, rfl, rfl⟩

theorem find?_adjust_of_find? (id : TagId) (descriptive : Descriptive change) {other : TagId}
    {tag : Tag} (found : forest.find? other = some tag) :
    ∃ tag', (forest.adjust id change).find? other = some tag' ∧ tag'.name = tag.name ∧
      tag'.parent = tag.parent ∧ tag'.children = tag.children := by
  rw [find?_adjust, found]
  split
  · obtain ⟨names, -, parents, children⟩ := descriptive tag
    exact ⟨change tag, rfl, names, parents, children⟩
  · exact ⟨tag, rfl, rfl, rfl, rfl⟩

theorem Linked.adjust (linked : forest.Linked) (descriptive : Descriptive change) :
    (forest.adjust id change).Linked where
  rooted := {
    stamped := by
      intro other tag' found
      obtain ⟨tag, isTag, -, ids, -⟩ := find?_of_adjust descriptive found
      exact ids.trans (linked.rooted.stamped isTag)
    upward := by
      intro other tag' parent found isParent
      obtain ⟨tag, isTag, -, -, parents, -⟩ := find?_of_adjust descriptive found
      obtain ⟨older, above, foundAbove, isChild⟩ :=
        linked.rooted.upward isTag (parents ▸ isParent)
      obtain ⟨above', foundAbove', -, -, children⟩ :=
        find?_adjust_of_find? id descriptive foundAbove
      exact ⟨older, above', foundAbove', children ▸ isChild⟩
    downward := by
      intro other tag' child found isChild
      obtain ⟨tag, isTag, -, -, -, children⟩ := find?_of_adjust descriptive found
      obtain ⟨below, foundBelow, isParent⟩ := linked.rooted.downward isTag (children ▸ isChild)
      obtain ⟨below', foundBelow', -, parents, -⟩ :=
        find?_adjust_of_find? id descriptive foundBelow
      exact ⟨below', foundBelow', parents.trans isParent⟩
    roots := by
      intro other
      refine (linked.rooted.roots other).trans ⟨?_, ?_⟩
      · intro given
        obtain ⟨tag, found, isRoot⟩ := given
        obtain ⟨tag', found', -, parents, -⟩ := find?_adjust_of_find? id descriptive found
        exact ⟨tag', found', parents.trans isRoot⟩
      · intro given
        obtain ⟨tag', found, isRoot⟩ := given
        obtain ⟨tag, isTag, -, -, parents, -⟩ := find?_of_adjust descriptive found
        exact ⟨tag, isTag, parents ▸ isRoot⟩
    childrenNodup := by
      intro other tag' found
      obtain ⟨tag, isTag, -, -, -, children⟩ := find?_of_adjust descriptive found
      exact children ▸ linked.rooted.childrenNodup isTag
    rootsNodup := linked.rooted.rootsNodup
    siblings := by
      intro other twin tag' twin' found foundTwin parents names
      obtain ⟨tag, isTag, tagName, -, tagParent, -⟩ := find?_of_adjust descriptive found
      obtain ⟨entry, isEntry, entryName, -, entryParent, -⟩ :=
        find?_of_adjust descriptive foundTwin
      exact linked.rooted.siblings isTag isEntry (tagParent ▸ entryParent ▸ parents)
        (tagName ▸ entryName ▸ names) }
  indexed := {
    exact := by
      intro name other
      refine (linked.indexed.exact name other).trans ⟨?_, ?_⟩
      · intro given
        obtain ⟨tag, found, isName⟩ := given
        obtain ⟨tag', found', names, -⟩ := find?_adjust_of_find? id descriptive found
        exact ⟨tag', found', names.trans isName⟩
      · intro given
        obtain ⟨tag', found, isName⟩ := given
        obtain ⟨tag, isTag, names, -⟩ := find?_of_adjust descriptive found
        exact ⟨tag, isTag, names ▸ isName⟩
    ascending := linked.indexed.ascending }
  named := by
    intro other tag' found
    obtain ⟨tag, isTag, names, -⟩ := find?_of_adjust descriptive found
    exact names ▸ linked.named isTag

theorem grows_adjust (descriptive : Descriptive change) :
    forest.Grows (forest.adjust id change) where
  next_le := by simp [adjust]
  kept := by
    intro other tag found
    obtain ⟨tag', found', names, parents, -⟩ := find?_adjust_of_find? id descriptive found
    exact ⟨tag', found', parents, names⟩
  young := by
    intro other tag' found
    obtain ⟨tag, isTag, -⟩ := find?_of_adjust descriptive found
    exact .inl ((contains_iff other).mpr ⟨tag, isTag⟩)

end Describe

/-! ## Adding a tag -/

/-- The handle of the next tag. -/
def nextId (forest : Forest) : TagId := ⟨forest.arena.next⟩

/-- A tag with one more child. -/
def withChild (child : TagId) (tag : Tag) : Tag := { tag with children := tag.children ++ [child] }

theorem find?_attach (forest : Forest) (parent : Option TagId) (name : String) (id : TagId) :
    (forest.attach parent name).find? id =
      if id = forest.nextId then some ⟨name, forest.nextId, parent, [], "", false, none⟩
      else (forest.find? id).map fun tag =>
        if parent = some id then withChild forest.nextId tag else tag := by
  have isNext : id = forest.nextId ↔ id.index = forest.arena.next := by
    cases id
    simp [nextId]
  cases parent with
  | none =>
      simp only [attach, find?, Arena.find?_push, isNext, reduceCtorEq, if_false,
        Option.map_id_fun', id_eq]
      rfl
  | some parent =>
      have here (other : Nat) :
          ((forest.adjust parent (withChild forest.nextId)).arena.find? other) =
            if (⟨other⟩ : TagId) = parent then
              (forest.arena.find? other).map (withChild forest.nextId)
            else forest.arena.find? other :=
        find?_adjust forest parent ⟨other⟩ _
      have next : (forest.adjust parent (withChild forest.nextId)).arena.next =
          forest.arena.next := by simp [adjust]
      have unfolded : (forest.attach (some parent) name).find? id =
          ((forest.adjust parent (withChild forest.nextId)).arena.push
            ⟨name, forest.nextId, some parent, [], "", false, none⟩).find? id.index := rfl
      rw [unfolded, Arena.find?_push, next, here]
      simp only [isNext, find?, Option.some.injEq, eq_comm (a := parent)]
      split
      · rfl
      · split
        · rfl
        · simp

theorem next_attach (forest : Forest) (parent : Option TagId) (name : String) :
    (forest.attach parent name).arena.next = forest.arena.next + 1 := by
  cases parent <;> simp [attach, adjust]

theorem roots_attach (forest : Forest) (parent : Option TagId) (name : String) :
    (forest.attach parent name).roots =
      match parent with
      | some _ => forest.roots
      | none => forest.roots ++ [forest.nextId] := by
  cases parent <;> rfl

theorem names_attach (forest : Forest) (parent : Option TagId) (name : String) :
    (forest.attach parent name).names =
      forest.names.insert name ((forest.names.find? name).getD [] ++ [forest.nextId]) := by
  cases parent <;> rfl

section Attach

variable {forest : Forest} {parent : Option TagId} {name : String}

theorem ne_nextId {id : TagId} {tag : Tag} (found : forest.find? id = some tag) :
    id ≠ forest.nextId := by
  intro same
  obtain rfl := same
  exact Nat.lt_irrefl _ (lt_next_of_find? found)

/-- An old tag, with the new one below it if it is the parent. -/
def withNext (forest : Forest) (parent : Option TagId) (id : TagId) (tag : Tag) : Tag :=
  if parent = some id then withChild forest.nextId tag else tag

@[simp] theorem parent_withNext (id : TagId) (tag : Tag) :
    (forest.withNext parent id tag).parent = tag.parent := by
  rw [withNext]
  split <;> rfl

@[simp] theorem name_withNext (id : TagId) (tag : Tag) :
    (forest.withNext parent id tag).name = tag.name := by
  rw [withNext]
  split <;> rfl

@[simp] theorem id_withNext (id : TagId) (tag : Tag) :
    (forest.withNext parent id tag).id = tag.id := by
  rw [withNext]
  split <;> rfl

theorem mem_children_withNext (id child : TagId) (tag : Tag) :
    child ∈ (forest.withNext parent id tag).children ↔
      child ∈ tag.children ∨ parent = some id ∧ child = forest.nextId := by
  rw [withNext]
  split
  · rename_i isParent
    simp [withChild, isParent]
  · rename_i notParent
    simp [notParent]

/-- A tag of the larger forest is the new one, or an old one that may have got a child. -/
theorem find?_of_attach {id : TagId} {tag' : Tag}
    (found : (forest.attach parent name).find? id = some tag') :
    (id = forest.nextId ∧ tag' = ⟨name, forest.nextId, parent, [], "", false, none⟩) ∨
      ∃ tag, forest.find? id = some tag ∧ tag' = forest.withNext parent id tag := by
  rw [find?_attach] at found
  split at found
  · rename_i isNew
    exact .inl ⟨isNew, (Option.some.inj found).symm⟩
  · obtain ⟨tag, isTag, same⟩ := Option.map_eq_some_iff.mp found
    exact .inr ⟨tag, isTag, same.symm⟩

theorem find?_attach_of_find? {id : TagId} {tag : Tag} (found : forest.find? id = some tag) :
    (forest.attach parent name).find? id =
      some (forest.withNext parent id tag) := by
  rw [find?_attach, if_neg (ne_nextId found), found]
  rfl

theorem find?_attach_nextId :
    (forest.attach parent name).find? forest.nextId =
      some ⟨name, forest.nextId, parent, [], "", false, none⟩ := by
  rw [find?_attach, if_pos rfl]

theorem grows_attach : forest.Grows (forest.attach parent name) where
  next_le := by
    rw [next_attach]
    exact Nat.le_succ _
  kept := by
    intro id tag found
    exact ⟨_, find?_attach_of_find? found, by simp⟩
  young := by
    intro id tag found
    rcases find?_of_attach found with ⟨rfl, -⟩ | ⟨old, isOld, -⟩
    · exact .inr (Nat.le_refl _)
    · exact .inl ((contains_iff id).mpr ⟨old, isOld⟩)

/-- The siblings in a place are the tags whose parent is the one of the place. -/
theorem Rooted.mem_siblings_iff (rooted : forest.Rooted) (above : ∀ id, parent = some id →
    forest.contains id = true) (id : TagId) :
    id ∈ forest.siblings parent ↔ ∃ tag, forest.find? id = some tag ∧ tag.parent = parent := by
  cases parent with
  | none => exact rooted.roots id
  | some up =>
      obtain ⟨upper, foundUpper⟩ := (contains_iff up).mp (above up rfl)
      simp only [Forest.siblings, foundUpper, Option.map_some, Option.getD_some]
      constructor
      · exact rooted.downward foundUpper
      · intro given
        obtain ⟨tag, found, isParent⟩ := given
        obtain ⟨-, upper', foundUpper', isChild⟩ := rooted.upward found isParent
        rw [foundUpper] at foundUpper'
        cases foundUpper'
        exact isChild

/-- No tag has the name among those below the parent, or among the roots. -/
theorem child?_eq_none_iff (linked : forest.Linked) (above : ∀ id, parent = some id →
    forest.contains id = true) :
    forest.child? parent name = none ↔
      ∀ id tag, forest.find? id = some tag → tag.parent = parent → tag.name ≠ name := by
  have isSibling := linked.rooted.mem_siblings_iff above
  simp only [child?, List.find?_eq_none]
  constructor
  · intro absent id tag found isParent isName
    refine absent id ((isSibling id).mpr ⟨tag, found, isParent⟩) ?_
    simp [found, isName]
  · intro absent id sibling
    obtain ⟨tag, found, isParent⟩ := (isSibling id).mp sibling
    simpa [found] using absent id tag found isParent

theorem Rooted.mem_roots_attach (rooted : forest.Rooted) (id : TagId) :
    id ∈ (forest.attach parent name).roots ↔
      ∃ tag, (forest.attach parent name).find? id = some tag ∧ tag.parent = none := by
  by_cases isNew : id = forest.nextId
  · subst isNew
    have notOld : forest.nextId ∉ forest.roots := by
      intro isRoot
      obtain ⟨tag, found, -⟩ := (rooted.roots _).mp isRoot
      exact ne_nextId found rfl
    rw [roots_attach, find?_attach_nextId]
    cases parent <;> simp [notOld]
  · have member : id ∈ (forest.attach parent name).roots ↔ id ∈ forest.roots := by
      rw [roots_attach]
      cases parent <;> simp [isNew]
    rw [member, rooted.roots id]
    constructor
    · intro given
      obtain ⟨tag, found, isRoot⟩ := given
      exact ⟨_, find?_attach_of_find? found, by simpa using isRoot⟩
    · intro given
      obtain ⟨tag', found', isRoot⟩ := given
      rcases find?_of_attach found' with ⟨same, -⟩ | ⟨tag, found, rfl⟩
      · exact absurd same isNew
      · exact ⟨tag, found, by simpa using isRoot⟩

/-- Tags in one place have different names, as the name is new there. -/
theorem Rooted.siblings_attach (rooted : forest.Rooted)
    (new : ∀ id tag, forest.find? id = some tag → tag.parent = parent → tag.name ≠ name)
    {id other : TagId} {tag' twin' : Tag}
    (found : (forest.attach parent name).find? id = some tag')
    (foundTwin : (forest.attach parent name).find? other = some twin')
    (parents : tag'.parent = twin'.parent) (names : tag'.name = twin'.name) : id = other := by
  rcases find?_of_attach found with ⟨rfl, rfl⟩ | ⟨tag, isTag, rfl⟩
  · rcases find?_of_attach foundTwin with ⟨rfl, -⟩ | ⟨twin, isTwin, rfl⟩
    · rfl
    · rw [parent_withNext] at parents
      rw [name_withNext] at names
      exact absurd names.symm (new other twin isTwin parents.symm)
  · rw [parent_withNext] at parents
    rw [name_withNext] at names
    rcases find?_of_attach foundTwin with ⟨rfl, rfl⟩ | ⟨twin, isTwin, rfl⟩
    · exact absurd names (new id tag isTag parents)
    · rw [parent_withNext] at parents
      rw [name_withNext] at names
      exact rooted.siblings isTag isTwin parents names

theorem Rooted.childrenNodup_attach (rooted : forest.Rooted) {id : TagId} {tag' : Tag}
    (found : (forest.attach parent name).find? id = some tag') : tag'.children.Nodup := by
  rcases find?_of_attach found with ⟨rfl, rfl⟩ | ⟨tag, isTag, rfl⟩
  · exact List.nodup_nil
  · have nodup := rooted.childrenNodup isTag
    rw [withNext]
    split
    · refine List.nodup_append.mpr ⟨nodup, List.nodup_singleton _, ?_⟩
      intro child isChild other isNew same
      obtain ⟨below, foundBelow, -⟩ := rooted.downward isTag isChild
      exact ne_nextId foundBelow (same.trans (List.mem_singleton.mp isNew))
    · exact nodup

theorem Rooted.attach (rooted : forest.Rooted)
    (above : ∀ id, parent = some id → forest.contains id = true)
    (new : ∀ id tag, forest.find? id = some tag → tag.parent = parent → tag.name ≠ name) :
    (forest.attach parent name).Rooted where
  stamped := by
    intro id tag' found
    rcases find?_of_attach found with ⟨rfl, rfl⟩ | ⟨tag, isTag, rfl⟩
    · rfl
    · rw [id_withNext]
      exact rooted.stamped isTag
  upward := by
    intro id tag' up found isParent
    rcases find?_of_attach found with ⟨rfl, rfl⟩ | ⟨tag, isTag, rfl⟩
    · obtain ⟨upper, foundUpper⟩ := (contains_iff up).mp (above up isParent)
      exact ⟨lt_next_of_find? foundUpper, _, find?_attach_of_find? foundUpper,
        (mem_children_withNext up _ upper).mpr (.inr ⟨isParent, rfl⟩)⟩
    · rw [parent_withNext] at isParent
      obtain ⟨older, upper, foundUpper, isChild⟩ := rooted.upward isTag isParent
      exact ⟨older, _, find?_attach_of_find? foundUpper,
        (mem_children_withNext up id upper).mpr (.inl isChild)⟩
  downward := by
    intro id tag' child found isChild
    rcases find?_of_attach found with ⟨rfl, rfl⟩ | ⟨tag, isTag, rfl⟩
    · cases isChild
    · rcases (mem_children_withNext id child tag).mp isChild with isOld | ⟨isParent, rfl⟩
      · obtain ⟨below, foundBelow, belowParent⟩ := rooted.downward isTag isOld
        exact ⟨_, find?_attach_of_find? foundBelow, by simpa using belowParent⟩
      · exact ⟨_, find?_attach_nextId, isParent⟩
  roots := rooted.mem_roots_attach
  childrenNodup := rooted.childrenNodup_attach
  rootsNodup := by
    rw [roots_attach]
    cases parent with
    | some up => exact rooted.rootsNodup
    | none =>
        refine List.nodup_append.mpr ⟨rooted.rootsNodup, List.nodup_singleton _, ?_⟩
        intro root isRoot other isNew same
        obtain ⟨tag, found, -⟩ := (rooted.roots root).mp isRoot
        exact ne_nextId found (same.trans (List.mem_singleton.mp isNew))
  siblings := rooted.siblings_attach new

theorem Indexed.attach (indexed : forest.Indexed) : (forest.attach parent name).Indexed where
  exact := by
    intro other id
    have listed : id ∈ ((forest.attach parent name).names.find? other).getD [] ↔
        id ∈ (forest.names.find? other).getD [] ∨ name = other ∧ id = forest.nextId := by
      rw [names_attach, Table.find?_insert]
      split
      · rename_i same
        subst same
        simp
      · rename_i different
        simp [different]
    rw [listed, indexed.exact other id]
    constructor
    · intro given
      obtain ⟨tag, found, isName⟩ | ⟨isName, rfl⟩ := given
      · exact ⟨_, find?_attach_of_find? found, by simpa using isName⟩
      · exact ⟨_, find?_attach_nextId, isName⟩
    · intro given
      obtain ⟨tag', found', isName⟩ := given
      rcases find?_of_attach found' with ⟨isNew, rfl⟩ | ⟨tag, found, rfl⟩
      · exact .inr ⟨isName, isNew⟩
      · exact .inl ⟨tag, found, by simpa using isName⟩
  ascending := by
    intro other ids found
    rw [names_attach, Table.find?_insert] at found
    split at found
    · cases found
      have older : ∀ id ∈ (forest.names.find? name).getD [], id < forest.nextId := by
        intro id member
        obtain ⟨tag, found, -⟩ := (indexed.exact name id).mp member
        exact lt_next_of_find? found
      have sorted : ((forest.names.find? name).getD []).Pairwise (· < ·) := by
        cases held : forest.names.find? name with
        | none => exact .nil
        | some ids => exact (indexed.ascending held).2
      refine ⟨by simp, List.pairwise_append.mpr ⟨sorted, List.pairwise_singleton _ _, ?_⟩⟩
      intro id member next isNext
      rw [List.mem_singleton.mp isNext]
      exact older id member
    · exact indexed.ascending found

end Attach

theorem Linked.attach {forest : Forest} {parent : Option TagId} {name : String}
    (linked : forest.Linked) (above : ∀ id, parent = some id → forest.contains id = true)
    (new : forest.child? parent name = none) (valid : validName name = true) :
    (forest.attach parent name).Linked where
  rooted := linked.rooted.attach above ((child?_eq_none_iff linked above).mp new)
  indexed := linked.indexed.attach
  named := by
    intro id tag' found
    rcases find?_of_attach found with ⟨-, rfl⟩ | ⟨tag, isTag, rfl⟩
    · exact valid
    · rw [name_withNext]
      exact linked.named isTag

theorem contains_of_child? {forest : Forest} {parent : Option TagId} {name : String} {id : TagId}
    (found : forest.child? parent name = some id) : forest.contains id = true := by
  have named := List.find?_some found
  obtain ⟨tag, isTag, -⟩ := (Option.any_eq_true _ _).mp named
  exact (contains_iff id).mpr ⟨tag, isTag⟩

/-- A linked forest with all that was there at the start. -/
def LinkedFrom (start forest : Forest) : Prop := forest.Linked ∧ start.Grows forest

theorem linkedFrom_self {forest : Forest} (linked : forest.Linked) : LinkedFrom forest forest :=
  ⟨linked, .refl forest⟩

theorem LinkedFrom.trans {start middle forest : Forest} (one : LinkedFrom start middle)
    (two : LinkedFrom middle forest) : LinkedFrom start forest :=
  ⟨two.1, one.2.trans two.2⟩

/-- Adding a tag answers one that is there.  It only fails, and changes nothing,
for a name that is not valid or a parent that is gone. -/
theorem leads_add {forest : Forest} (linked : forest.Linked) (parent : Option TagId)
    (name : String) :
    (add parent name).Leads forest
      (fun id changed => LinkedFrom forest changed ∧ changed.contains id = true)
      (fun changed => changed = forest ∧
        (validName name = false ∨ ∃ id, parent = some id ∧ forest.contains id = false)) := by
  rw [add, Change.leads_ofFunction]
  by_cases valid : validName name = true
  · simp only [valid, Bool.not_true, Bool.false_eq_true, if_false]
    cases existing : forest.child? parent name with
    | some id => exact ⟨linkedFrom_self linked, contains_of_child? existing⟩
    | none =>
        have added (above : ∀ id, parent = some id → forest.contains id = true) :
            LinkedFrom forest (forest.attach parent name) ∧
              (forest.attach parent name).contains forest.nextId = true :=
          ⟨⟨linked.attach above existing valid, grows_attach⟩,
            (contains_iff _).mpr ⟨_, find?_attach_nextId⟩⟩
        cases parent with
        | none => exact added (fun _ same => by cases same)
        | some id =>
            by_cases present : forest.contains id = true
            · simp only [present, if_true]
              refine added fun other same => ?_
              cases same
              exact present
            · have gone : forest.contains id = false := by simpa using present
              simp only [gone, Bool.false_eq_true, if_false]
              exact ⟨trivial, .inr ⟨id, rfl, gone⟩⟩
  · have invalid : validName name = false := by simpa using valid
    simp only [invalid, Bool.not_false, if_true]
    exact ⟨trivial, .inl trivial⟩

/-- Adding a path of names answers the last tag, which is there.  It only fails at a
name that is not valid, or for a parent that is gone. -/
theorem leads_addPath {forest : Forest} (linked : forest.Linked) (parent : Option TagId)
    (names : List String) :
    (addPath parent names).Leads forest
      (fun answer changed => LinkedFrom forest changed ∧
        (names = [] ∧ answer = parent ∨ ∃ id, answer = some id ∧ changed.contains id = true))
      (fun changed => LinkedFrom forest changed ∧
        ((∃ id, parent = some id ∧ forest.contains id = false) ∨
          ∃ name ∈ names, validName name = false)) := by
  induction names generalizing forest parent with
  | nil => exact ⟨linkedFrom_self linked, .inl ⟨rfl, rfl⟩⟩
  | cons name rest inductionHypothesis =>
      refine Change.leads_bind _ ((leads_add linked parent name).imp (fun _ _ post => post) ?_) ?_
      · intro changed outcome
        obtain ⟨rfl, invalid | gone⟩ := outcome
        · exact ⟨linkedFrom_self linked, .inr ⟨name, List.mem_cons_self .., invalid⟩⟩
        · exact ⟨linkedFrom_self linked, .inl gone⟩
      · intro id changed outcome
        obtain ⟨grown, present⟩ := outcome
        refine (inductionHypothesis grown.1 (some id)).imp ?_ ?_
        · intro answer later outcome
          obtain ⟨further, ⟨-, rfl⟩ | live⟩ := outcome
          · exact ⟨grown.trans further, .inr ⟨id, rfl, further.2.contains present⟩⟩
          · exact ⟨grown.trans further, .inr live⟩
        · intro later outcome
          obtain ⟨further, ⟨other, same, gone⟩ | ⟨other, inRest, invalid⟩⟩ := outcome
          · cases same
            rw [present] at gone
            cases gone
          · exact ⟨grown.trans further, .inr ⟨other, List.mem_cons_of_mem _ inRest, invalid⟩⟩

theorem contains_of_mem_homonyms {forest : Forest} (linked : forest.Linked) {names : List String}
    {id : TagId} (member : id ∈ forest.homonyms names) : forest.contains id = true := by
  rw [homonyms] at member
  split at member
  · obtain ⟨tag, found, -⟩ := (linked.indexed.exact _ id).mp member
    exact (contains_iff id).mpr ⟨tag, found⟩
  · cases member

theorem contains_of_lookup? {forest : Forest} (linked : forest.Linked) {name : String} {id : TagId}
    (found : forest.lookup? name = some id) : forest.contains id = true := by
  have candidate : id ∈ forest.candidates name := List.mem_of_head? found
  exact contains_of_mem_homonyms linked (List.mem_of_mem_filter candidate)

theorem contains_of_lookupBelow? {forest : Forest} (linked : forest.Linked) {ns : TagId}
    {name : String} {id : TagId} (found : forest.lookupBelow? ns name = some id) :
    forest.contains id = true :=
  contains_of_mem_homonyms linked (List.mem_of_find?_eq_some found)

/-- A tag that is looked up or created is there.  With a parent that is there, or
none, only a name that is not valid can be in the way. -/
theorem leads_tagOrCreate {forest : Forest} (linked : forest.Linked) (name : String)
    (parent : Option TagId) :
    (tagOrCreate name parent).Leads forest
      (fun id changed => LinkedFrom forest changed ∧ changed.contains id = true)
      (fun changed => LinkedFrom forest changed ∧
        ((∃ id, parent = some id ∧ forest.contains id = false) ∨
          ∃ part ∈ Text.parts '.' name, validName part = false)) := by
  rw [tagOrCreate]
  refine Change.leads_get_bind ?_
  dsimp only
  split
  · rename_i id found
    refine Change.leads_pure ⟨linkedFrom_self linked, ?_⟩
    cases parent with
    | none => exact contains_of_lookup? linked found
    | some ns => exact contains_of_lookupBelow? linked found
  · refine Change.leads_bind _ (leads_addPath linked parent _) ?_
    intro last changed outcome
    obtain ⟨grown, ⟨none, -⟩ | ⟨id, rfl, live⟩⟩ := outcome
    · exact absurd none (Text.parts_ne_nil '.' name)
    · exact Change.leads_pure ⟨grown, live⟩

/-! ## Configuring tags -/

section Configure

variable {start : Forest}

theorem keeps_add (parent : Option TagId) (name : String) :
    (add parent name).Keeps (LinkedFrom start) := by
  intro forest grown
  refine (leads_add grown.1 parent name).imp ?_ ?_
  · intro id changed outcome
    obtain ⟨further, -⟩ := outcome
    exact grown.trans further
  · intro changed outcome
    obtain ⟨rfl, -⟩ := outcome
    exact grown

theorem keeps_adjust (id : TagId) {change : Tag → Tag} (descriptive : Descriptive change) :
    (modify (·.adjust id change) : Change Forest PUnit).Keeps (LinkedFrom start) :=
  Change.keeps_modify fun _ grown =>
    ⟨grown.1.adjust descriptive, grown.2.trans (grows_adjust descriptive)⟩

theorem keeps_describe (id : TagId) (members : Json.Members) :
    (describe id members).Keeps (LinkedFrom start) := by
  rw [describe]
  have stored (expression : Option Query) :
      (modify fun forest => forest.adjust id fun tag => { tag with expression } :
        Change Forest PUnit).Keeps (LinkedFrom start) :=
    keeps_adjust id fun _ => ⟨rfl, rfl, rfl, rfl⟩
  refine Change.Keeps.bind (keeps_adjust id ?_) fun _ => ?_
  · exact fun _ => ⟨rfl, rfl, rfl, rfl⟩
  · dsimp only
    split
    · exact (Change.keeps_ask _).bind fun query => (Change.keeps_pure _).bind stored
    · exact (Change.keeps_pure _).bind stored

theorem keeps_configureNames (parent : Option TagId) (items : List Json) :
    (configureNames parent items).Keeps (LinkedFrom start) := by
  induction items with
  | nil => exact Change.keeps_pure _
  | cons item rest inductionHypothesis =>
      cases item with
      | text name =>
          exact (keeps_add parent name).bind fun _ =>
            inductionHypothesis.bind fun _ => Change.keeps_pure _
      | _ => exact Change.keeps_stop _

mutual
theorem keeps_configure (parent : Option TagId) :
    (data : Json) → (configure parent data).Keeps (LinkedFrom start)
  | .null => Change.keeps_pure _
  | .array items => keeps_configureNames parent items
  | .object members => keeps_configureMembers parent members
  | .text _ => Change.keeps_stop _
  | .boolean _ => Change.keeps_stop _
  | .integer _ => Change.keeps_stop _
  | .float _ => Change.keeps_stop _

theorem keeps_configureMembers (parent : Option TagId) :
    (members : List (String × Json)) →
      (configureMembers parent members).Keeps (LinkedFrom start)
  | [] => Change.keeps_pure _
  | (name, entry) :: rest =>
      (keeps_add parent name).bind fun id =>
        (keeps_configureEntry name id entry).bind fun _ =>
          (keeps_configureMembers parent rest).bind fun _ => Change.keeps_pure _

theorem keeps_configureEntry (name : String) (id : TagId) :
    (data : Json) → (configureEntry name id data).Keeps (LinkedFrom start)
  | .null => Change.keeps_pure _
  | .text _ =>
      Change.Keeps.bind (keeps_adjust id fun _ => ⟨rfl, rfl, rfl, rfl⟩) fun _ =>
        Change.keeps_pure _
  | .object members =>
      (keeps_describe id members).bind fun _ => keeps_configureChildren id members
  | .array _ => Change.keeps_stop _
  | .boolean _ => Change.keeps_stop _
  | .integer _ => Change.keeps_stop _
  | .float _ => Change.keeps_stop _

theorem keeps_configureChildren (id : TagId) :
    (members : List (String × Json)) → (configureChildren id members).Keeps (LinkedFrom start)
  | [] => Change.keeps_pure _
  | (key, value) :: rest => by
      rw [configureChildren]
      split
      · exact keeps_configure (some id) value
      · exact keeps_configureChildren id rest
end

theorem keeps_tagOrCreate (name : String) (parent : Option TagId) :
    (tagOrCreate name parent).Keeps (LinkedFrom start) := by
  intro forest grown
  refine (leads_tagOrCreate grown.1 name parent).imp ?_ ?_
  · intro id changed outcome
    obtain ⟨further, -⟩ := outcome
    exact grown.trans further
  · intro changed outcome
    obtain ⟨further, -⟩ := outcome
    exact grown.trans further

end Configure

end Forest

end LifecycleGraph
