import LifecycleGraph.Proofs.Collection
import LifecycleGraph.Tag.Forest

/-!
# Linked forests

In a linked forest the links from tags to their parents and to their children
are each other's inverse, every parent is older than its children, siblings
have different names, all names are valid, and the index of names lists exactly the
tags that are there.  The tags of a walk are then those whose lineage comes to its start.
-/

set_option autoImplicit false

namespace LifecycleGraph

namespace Forest

/-- The tag directly above a tag. -/
def parent? (forest : Forest) (id : TagId) : Option TagId := (forest.find? id).bind Tag.parent

structure Rooted (forest : Forest) : Prop where
  stamped : ∀ {id tag}, forest.find? id = some tag → tag.id = id
  upward : ∀ {id tag parent}, forest.find? id = some tag → tag.parent = some parent →
    parent.index < id.index ∧ ∃ above, forest.find? parent = some above ∧ id ∈ above.children
  downward : ∀ {id tag child}, forest.find? id = some tag → child ∈ tag.children →
    ∃ below, forest.find? child = some below ∧ below.parent = some id
  roots : ∀ id, id ∈ forest.roots ↔ ∃ tag, forest.find? id = some tag ∧ tag.parent = none
  childrenNodup : ∀ {id tag}, forest.find? id = some tag → tag.children.Nodup
  rootsNodup : forest.roots.Nodup
  siblings : ∀ {id other tag twin}, forest.find? id = some tag → forest.find? other = some twin →
    tag.parent = twin.parent → tag.name = twin.name → id = other

/-- The index of names lists exactly the tags that are there, ascending. -/
structure Indexed (forest : Forest) : Prop where
  exact : ∀ name id, id ∈ (forest.names.find? name).getD [] ↔
    ∃ tag, forest.find? id = some tag ∧ tag.name = name
  ascending : ∀ {name ids}, forest.names.find? name = some ids →
    ids ≠ [] ∧ ids.Pairwise (· < ·)

structure Linked (forest : Forest) : Prop where
  rooted : forest.Rooted
  indexed : forest.Indexed
  named : ∀ {id tag}, forest.find? id = some tag → validName tag.name = true

theorem linked_empty : empty.Linked where
  rooted := {
    stamped := (nomatch ·)
    upward := (nomatch ·)
    downward := (nomatch ·)
    roots := fun _ => ⟨(nomatch ·), fun ⟨_, found, _⟩ => by cases found⟩
    childrenNodup := (nomatch ·)
    rootsNodup := List.nodup_nil
    siblings := (nomatch ·) }
  indexed := {
    exact := fun _ _ => ⟨(nomatch ·), fun ⟨_, found, _⟩ => by cases found⟩
    ascending := (nomatch ·) }
  named := (nomatch ·)

variable {forest : Forest}

theorem contains_iff (id : TagId) :
    forest.contains id = true ↔ ∃ tag, forest.find? id = some tag :=
  Option.isSome_iff_exists

theorem lt_next_of_find? {id : TagId} {tag : Tag} (found : forest.find? id = some tag) :
    id.index < forest.arena.next :=
  Arena.lt_next_of_find? found

theorem parent?_eq_some_iff (id parent : TagId) :
    forest.parent? id = some parent ↔
      ∃ tag, forest.find? id = some tag ∧ tag.parent = some parent :=
  Option.bind_eq_some_iff

namespace Rooted

theorem parent?_lt (rooted : forest.Rooted) {id parent : TagId}
    (above : forest.parent? id = some parent) : parent.index < id.index := by
  obtain ⟨tag, found, isParent⟩ := (parent?_eq_some_iff id parent).mp above
  exact (rooted.upward found isParent).1

theorem contains_parent (rooted : forest.Rooted) {id parent : TagId}
    (above : forest.parent? id = some parent) : forest.contains parent = true := by
  obtain ⟨tag, found, isParent⟩ := (parent?_eq_some_iff id parent).mp above
  obtain ⟨-, upper, foundUpper, -⟩ := rooted.upward found isParent
  exact (contains_iff parent).mpr ⟨upper, foundUpper⟩

/-! ## Lineages -/

/-- Fuel beyond the number of a tag does not lengthen its lineage. -/
theorem lineageFrom_eq (rooted : forest.Rooted) (fuel enough : Nat) (id : TagId)
    (bound : id.index ≤ fuel) (bound' : id.index ≤ enough) :
    forest.lineageFrom fuel id = forest.lineageFrom enough id := by
  induction fuel generalizing id enough with
  | zero =>
      have isRoot : (forest.find? id).bind Tag.parent = none := by
        cases above : (forest.find? id).bind Tag.parent with
        | none => rfl
        | some parent =>
            have := rooted.parent?_lt above
            omega
      cases enough with
      | zero => rfl
      | succ enough => simp only [lineageFrom, isRoot]
  | succ fuel inductionHypothesis =>
      cases enough with
      | zero =>
          have isRoot : (forest.find? id).bind Tag.parent = none := by
            cases above : (forest.find? id).bind Tag.parent with
            | none => rfl
            | some parent =>
                have := rooted.parent?_lt above
                omega
          simp only [lineageFrom, isRoot]
      | succ enough =>
          simp only [lineageFrom]
          cases above : (forest.find? id).bind Tag.parent with
          | none => rfl
          | some parent =>
              have older := rooted.parent?_lt above
              simp only
              rw [inductionHypothesis enough parent (by omega) (by omega)]

theorem lineage_eq (rooted : forest.Rooted) (id : TagId) :
    forest.lineage id =
      match forest.parent? id with
      | some parent => id :: forest.lineage parent
      | none => [id] := by
  unfold lineage
  cases above : forest.parent? id with
  | none =>
      rw [parent?] at above
      cases forest.arena.next with
      | zero => rfl
      | succ fuel => simp only [lineageFrom, above]
  | some parent =>
      obtain ⟨tag, found, -⟩ := (parent?_eq_some_iff id parent).mp above
      have present := lt_next_of_find? found
      have older := rooted.parent?_lt above
      rw [parent?] at above
      cases next : forest.arena.next with
      | zero => omega
      | succ fuel =>
          have step : forest.lineageFrom (fuel + 1) id = id :: forest.lineageFrom fuel parent := by
            simp only [lineageFrom, above]
          rw [step, rooted.lineageFrom_eq fuel (fuel + 1) parent (by omega) (by omega)]

/-- A tag is a kind of itself and of what its parent is a kind of. -/
theorem isa_iff (rooted : forest.Rooted) (id target : TagId) :
    forest.isa id target = true ↔
      id = target ∨
        ∃ parent, forest.parent? id = some parent ∧ forest.isa parent target = true := by
  unfold isa
  rw [rooted.lineage_eq id]
  cases above : forest.parent? id with
  | none => simp [eq_comm (a := id)]
  | some parent => simp [eq_comm (a := id)]

theorem isa_self (rooted : forest.Rooted) (id : TagId) : forest.isa id id = true :=
  (rooted.isa_iff id id).mpr (.inl rfl)

theorem isa_trans (rooted : forest.Rooted) {id middle target : TagId}
    (low : forest.isa id middle = true) (high : forest.isa middle target = true) :
    forest.isa id target = true := by
  -- A parent is older than its children, so the number of the tag falls on the way up.
  generalize number : id.index = index
  induction index using Nat.strongRecOn generalizing id with
  | ind index inductionHypothesis =>
      rcases (rooted.isa_iff id middle).mp low with rfl | ⟨parent, above, low⟩
      · exact high
      · have older := rooted.parent?_lt above
        have parentIsa := inductionHypothesis parent.index (by omega) low rfl
        exact (rooted.isa_iff id target).mpr (.inr ⟨parent, above, parentIsa⟩)

/-- What a tag that is there is a kind of is there as well. -/
theorem contains_of_isa (rooted : forest.Rooted) {id target : TagId}
    (present : forest.contains id = true) (isa : forest.isa id target = true) :
    forest.contains target = true := by
  generalize number : id.index = index
  induction index using Nat.strongRecOn generalizing id with
  | ind index inductionHypothesis =>
      rcases (rooted.isa_iff id target).mp isa with rfl | ⟨parent, above, isa⟩
      · exact present
      · have older := rooted.parent?_lt above
        exact inductionHypothesis parent.index (by omega) (rooted.contains_parent above) isa rfl

/-- A tag that is gone is a kind of nothing but itself. -/
theorem eq_of_isa_of_gone (rooted : forest.Rooted) {id target : TagId}
    (gone : forest.contains id = false) (isa : forest.isa id target = true) : id = target := by
  rcases (rooted.isa_iff id target).mp isa with same | ⟨parent, above, -⟩
  · exact same
  · obtain ⟨tag, found, -⟩ := (parent?_eq_some_iff id parent).mp above
    rw [(contains_iff id).mpr ⟨tag, found⟩] at gone
    cases gone

/-- Two forests that agree on the parents of the tags of the first agree on what
these tags are kinds of. -/
theorem isa_congr {other : Forest} (rooted : forest.Rooted) (otherRooted : other.Rooted)
    (parents : ∀ id, forest.contains id = true → other.parent? id = forest.parent? id)
    {id : TagId} (present : forest.contains id = true) (target : TagId) :
    other.isa id target = forest.isa id target := by
  rw [Bool.eq_iff_iff]
  generalize number : id.index = index
  induction index using Nat.strongRecOn generalizing id with
  | ind index inductionHypothesis =>
      rw [otherRooted.isa_iff id target, rooted.isa_iff id target, parents id present]
      refine or_congr Iff.rfl (exists_congr fun parent => and_congr_right fun above => ?_)
      have older := rooted.parent?_lt above
      exact inductionHypothesis parent.index (by omega) (rooted.contains_parent above) rfl

/-! ## Walks -/

/-- Fuel beyond the number of younger tags does not lengthen a walk. -/
theorem walkFrom_eq (rooted : forest.Rooted) (fuel enough : Nat) (id : TagId)
    (bound : forest.arena.next - id.index ≤ fuel) (bound' : forest.arena.next - id.index ≤ enough) :
    forest.walkFrom fuel id = forest.walkFrom enough id := by
  induction fuel generalizing id enough with
  | zero =>
      have gone : forest.find? id = none := Arena.find?_of_next_le (by omega)
      cases enough with
      | zero => rfl
      | succ enough => simp only [walkFrom, gone]
  | succ fuel inductionHypothesis =>
      cases found : forest.find? id with
      | none => cases enough <;> simp only [walkFrom, found]
      | some tag =>
          have present := lt_next_of_find? found
          cases enough with
          | zero => omega
          | succ enough =>
              simp only [walkFrom, found, List.cons.injEq, true_and]
              refine List.flatMap_congr fun child isChild => ?_
              obtain ⟨below, foundBelow, isParent⟩ := rooted.downward found isChild
              have older := (rooted.upward foundBelow isParent).1
              exact inductionHypothesis enough child (by omega) (by omega)

theorem walk_eq (rooted : forest.Rooted) {id : TagId} {tag : Tag}
    (found : forest.find? id = some tag) :
    forest.walk id = id :: tag.children.flatMap forest.walk := by
  have present := lt_next_of_find? found
  unfold walk
  cases next : forest.arena.next with
  | zero => omega
  | succ fuel =>
      simp only [walkFrom, found, List.cons.injEq, true_and]
      refine List.flatMap_congr fun child isChild => ?_
      obtain ⟨below, foundBelow, isParent⟩ := rooted.downward found isChild
      have older := (rooted.upward foundBelow isParent).1
      exact rooted.walkFrom_eq fuel (fuel + 1) child (by omega) (by omega)

theorem walk_of_gone {id : TagId} (gone : forest.find? id = none) : forest.walk id = [] := by
  rw [walk]
  cases forest.arena.next <;> simp only [walkFrom, gone]

/-- A walk that comes to a tag comes to those directly below it. -/
theorem child_mem_walk (rooted : forest.Rooted) {id middle child : TagId} {tag : Tag}
    (reached : middle ∈ forest.walk id) (found : forest.find? middle = some tag)
    (isChild : child ∈ tag.children) : child ∈ forest.walk id := by
  -- A walk goes to younger tags, so fewer and fewer of them are left below the start.
  generalize left : forest.arena.next - id.index = count
  induction count using Nat.strongRecOn generalizing id with
  | ind count inductionHypothesis =>
      cases start : forest.find? id with
      | none =>
          rw [walk_of_gone start] at reached
          cases reached
      | some first =>
          have present := lt_next_of_find? start
          rw [rooted.walk_eq start] at reached ⊢
          rcases List.mem_cons.mp reached with rfl | below
          · rw [start] at found
            cases found
            obtain ⟨entry, foundChild, -⟩ := rooted.downward start isChild
            refine List.mem_cons_of_mem _ (List.mem_flatMap.mpr ⟨child, isChild, ?_⟩)
            rw [rooted.walk_eq foundChild]
            exact List.mem_cons_self ..
          · obtain ⟨branch, isBranch, onBranch⟩ := List.mem_flatMap.mp below
            obtain ⟨entry, foundBranch, isParent⟩ := rooted.downward start isBranch
            have older := (rooted.upward foundBranch isParent).1
            exact List.mem_cons_of_mem _ (List.mem_flatMap.mpr
              ⟨branch, isBranch, inductionHypothesis _ (by omega) onBranch rfl⟩)

theorem isa_of_mem_walk (rooted : forest.Rooted) {id member : TagId}
    (reached : member ∈ forest.walk id) :
    forest.contains member = true ∧ forest.isa member id = true := by
  generalize left : forest.arena.next - id.index = count
  induction count using Nat.strongRecOn generalizing id with
  | ind count inductionHypothesis =>
      cases start : forest.find? id with
      | none =>
          rw [walk_of_gone start] at reached
          cases reached
      | some first =>
          have present := lt_next_of_find? start
          rw [rooted.walk_eq start] at reached
          rcases List.mem_cons.mp reached with rfl | below
          · exact ⟨(contains_iff member).mpr ⟨first, start⟩, rooted.isa_self member⟩
          · obtain ⟨branch, isBranch, onBranch⟩ := List.mem_flatMap.mp below
            obtain ⟨entry, foundBranch, isParent⟩ := rooted.downward start isBranch
            have older := (rooted.upward foundBranch isParent).1
            obtain ⟨live, isaBranch⟩ := inductionHypothesis _ (by omega) onBranch rfl
            have branchIsa : forest.isa branch id = true :=
              (rooted.isa_iff branch id).mpr (.inr ⟨id,
                (parent?_eq_some_iff branch id).mpr ⟨entry, foundBranch, isParent⟩,
                rooted.isa_self id⟩)
            exact ⟨live, rooted.isa_trans isaBranch branchIsa⟩

/-- A walk comes to exactly the tags that are a kind of its start. -/
theorem mem_walk_iff (rooted : forest.Rooted) (id member : TagId) :
    member ∈ forest.walk id ↔ forest.contains member = true ∧ forest.isa member id = true := by
  refine ⟨rooted.isa_of_mem_walk, ?_⟩
  intro given
  obtain ⟨live, isa⟩ := given
  -- The walk reaches the parent before, as the parent is older and a kind of the start too.
  generalize number : member.index = index
  induction index using Nat.strongRecOn generalizing member with
  | ind index inductionHypothesis =>
      obtain ⟨tag, found⟩ := (contains_iff member).mp live
      rcases (rooted.isa_iff member id).mp isa with rfl | ⟨parent, above, isa⟩
      · rw [rooted.walk_eq found]
        exact List.mem_cons_self ..
      · have older := rooted.parent?_lt above
        have reached := inductionHypothesis parent.index (by omega) parent
          (rooted.contains_parent above) isa rfl
        obtain ⟨entry, foundEntry, isParent⟩ := (parent?_eq_some_iff member parent).mp above
        obtain ⟨-, upper, foundUpper, isChild⟩ := rooted.upward foundEntry isParent
        exact rooted.child_mem_walk reached foundUpper isChild

end Rooted

end Forest

end LifecycleGraph
