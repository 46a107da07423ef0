import LifecycleGraph.Proofs.Forest.Creation
import LifecycleGraph.Proofs.Forest.Run
import LifecycleGraph.Proofs.Repository.Run

/-!
# Tags that are found or created

A dotted name is found, or else its tag is created with those on the way to it.  Whatever the
forest was reached by, the name then finds a tag, and asking for it again changes nothing.
It is the tag that was created unless the names of the place and the first parts of the name
end with the whole name: then a tag on the way answers to it.  A part that is empty stops the
creation, and the tags for the parts before it stay.
-/

set_option autoImplicit false

namespace LifecycleGraph

namespace Forest

variable {forest changed : Forest}

/-- The forest that operations on it lead to, or that of a repository that is reached. -/
def Arises (forest : Forest) : Prop :=
  (∃ operations, forest = Operation.run operations .empty) ∨
    ∃ repository, Reachable repository ∧ forest = repository.graph.tags

theorem Arises.linked (arises : forest.Arises) : forest.Linked := by
  rcases arises with ⟨operations, rfl⟩ | ⟨repository, reachable, rfl⟩
  · exact linked_empty.run operations
  · exact (Reached.listed reachable).linked

theorem arises_run (operations : List Operation) : (Operation.run operations .empty).Arises :=
  .inl ⟨operations, rfl⟩

/-- A name that was found or created is found, and asking again answers what is found and changes
nothing.  It is the tag that was answered first, unless a tag that was created on the way to
it answers to the name, which needs a place below a tag and a name whose last part is one of
the others too. -/
theorem tagOrCreate_again (arises : forest.Arises) {name : String} {parent : Option TagId}
    (isOpen : forest.IsOpen parent) {id : TagId}
    (answered : (tagOrCreate name parent).apply forest = (.ok id, changed)) :
    ∃ found, changed.sought? parent name = some found ∧
      (tagOrCreate name parent).apply changed = (.ok found, changed) ∧
      (found = id ↔ forest.sought? parent name ≠ none ∨
        ¬ Repeats (forest.pathAbove parent) (Text.parts '.' name)) ∧
      (parent = none → found = id) ∧
      ∀ before leaf, Text.parts '.' name = before ++ [leaf] → leaf ∉ before → found = id := by
  have again {found : TagId} (isFound : changed.sought? parent name = some found) :
      (tagOrCreate name parent).apply changed = (.ok found, changed) := by
    rw [apply_tagOrCreate, isFound]
  have linked := arises.linked
  rcases linked.found_or_paved isOpen answered with ⟨sought, rfl⟩ | ⟨unsought, isPath, paved⟩
  · refine ⟨id, sought, again sought, ?_, fun _ => rfl, fun _ _ _ _ => rfl⟩
    simp [sought]
  · have place := (linked.rooted.place_iff parent _).mpr ⟨isOpen, rfl⟩
    obtain ⟨found, isFound, same⟩ := paved.exists_sought? linked place unsought isPath
    refine ⟨found, isFound, again isFound, ?_, ?_, ?_⟩
    · simpa [unsought] using same
    · rintro rfl
      exact same.mpr (not_repeats_nil _)
    · intro before leaf parted fresh
      exact same.mpr (parted ▸ not_repeats_of_last fresh)

/-- Below a tag, a path of new names whose last is none of the others. -/
theorem tagOrCreate_again_namedTwice :
    let forest := Operation.run [.tagOrCreate "a.b" none] .empty
    let changed := ((tagOrCreate "b.a" (some ⟨1⟩)).apply forest).2
    changed.absoluteName ⟨3⟩ = "a.b.b.a" ∧
      changed.lookupBelow? ⟨1⟩ "b.a" = some ⟨3⟩ ∧
      (tagOrCreate "b.a" (some ⟨1⟩)).apply changed = (.ok ⟨3⟩, changed) := by
  intro forest changed
  have isOpen : forest.IsOpen (some ⟨1⟩) := (isOpen_some_iff _).mpr (by decide)
  have isAnswer : ((tagOrCreate "b.a" (some ⟨1⟩)).apply forest).1 = .ok ⟨3⟩ :=
    eq_ok_of_toOption (by decide)
  have answered : (tagOrCreate "b.a" (some ⟨1⟩)).apply forest = (.ok ⟨3⟩, changed) :=
    Prod.ext isAnswer rfl
  obtain ⟨found, isFound, again, -, -, last⟩ :=
    tagOrCreate_again (arises_run _) isOpen answered
  obtain rfl := last ["b"] "a" (by decide) (by decide)
  exact ⟨by decide, isFound, again⟩

/-- Below the tag a, the name a.a is created as a.a.a and then found as a.a. -/
theorem created_tag_not_found :
    let forest := Operation.run [.add none "a"] .empty
    let changed := ((tagOrCreate "a.a" (some ⟨0⟩)).apply forest).2
    forest.Arises ∧ forest.IsOpen (some ⟨0⟩) ∧
      ((tagOrCreate "a.a" (some ⟨0⟩)).apply forest).1.toOption = some ⟨2⟩ ∧
      changed.lookupBelow? ⟨0⟩ "a.a" = some ⟨1⟩ ∧
      ((tagOrCreate "a.a" (some ⟨0⟩)).apply changed).1.toOption = some ⟨1⟩ :=
  ⟨arises_run _, (isOpen_some_iff _).mpr (by decide), by decide, by decide,
    by decide⟩

/-- Adding a tag changes nothing where it fails.  Finding or creating one changes nothing where
the parent is gone; elsewhere it fails at the first empty part of the name, when the way for
the parts before it is paved, and nothing is changed exactly if there was a tag at its end. -/
theorem paved_of_failed (arises : forest.Arises) (name : String) (parent : Option TagId)
    (fault : Fault) (changed : Forest) :
    ((add parent name).apply forest = (.error fault, changed) → changed = forest) ∧
    ((tagOrCreate name parent).apply forest = (.error fault, changed) →
      ¬ forest.IsOpen parent ∧ changed = forest ∨
      forest.IsOpen parent ∧ fault = .schema (.invalidTagName "") ∧
        ∃ leading rest, Text.parts '.' name = leading ++ "" :: rest ∧ "" ∉ leading ∧
          Paved forest changed (forest.pathAbove parent) leading ∧
          (changed = forest ↔
            leading = [] ∨ ∃ id, forest.RootPath id (forest.pathAbove parent ++ leading))) := by
  constructor
  · intro failed
    have leads := (leads_add arises.linked parent name).state_of_error
      (congrArg Prod.fst failed)
    rw [failed] at leads
    exact leads.1
  · intro failed
    refine (arises.linked.gone_or_paved failed).imp_right ?_
    rintro ⟨isOpen, isFault, leading, rest, whole, filled, paved⟩
    exact ⟨isOpen, isFault, leading, rest, whole, filled, paved, paved.eq_iff⟩

/-- The tags for the parts before the empty one are there, or a parent is gone. -/
theorem paved_of_failed_emptyPart :
    let forest := Operation.run [.tagOrCreate "a.b" none, .add none "c", .remove ⟨2⟩] .empty
    ((add none "a.b").apply forest).2 = forest ∧
      ((tagOrCreate "a.b..c" none).apply forest).1.toOption = none ∧
      ((tagOrCreate "a.b..c" none).apply forest).2 = forest ∧
      ((tagOrCreate "d" (some ⟨2⟩)).apply forest).2 = forest := by
  intro forest
  have arises : forest.Arises := arises_run _
  have noAdded : ((add none "a.b").apply forest).1.toOption = none := by decide
  have noAnswer : ((tagOrCreate "a.b..c" none).apply forest).1.toOption = none := by decide
  have noChild : ((tagOrCreate "d" (some ⟨2⟩)).apply forest).1.toOption = none := by decide
  obtain ⟨fault, refused⟩ := exists_error_of_toOption noAdded
  obtain ⟨fault', refused'⟩ := exists_error_of_toOption noAnswer
  obtain ⟨fault'', refused''⟩ := exists_error_of_toOption noChild
  refine ⟨(paved_of_failed arises "a.b" none fault _).1 (Prod.ext refused rfl), noAnswer, ?_, ?_⟩
  · have outcome := (paved_of_failed arises "a.b..c" none fault' _).2 (Prod.ext refused' rfl)
    rcases outcome with ⟨-, same⟩ | ⟨-, -, leading, rest, whole, filled, -, same⟩
    · exact same
    · have isWhole : Text.parts '.' "a.b..c" = ["a", "b", "", "c"] := by decide
      have isLeading : leading = ["a", "b"] := by
        rw [isWhole] at whole
        rcases leading with _ | ⟨first, _ | ⟨second, _ | ⟨third, more⟩⟩⟩ <;> simp_all
      have isPath : forest.RootPath ⟨1⟩ ["a", "b"] :=
        (arises.linked.rooted.rootPath_iff _ _).mpr (by decide)
      exact same.mpr (.inr ⟨⟨1⟩, isLeading ▸ isPath⟩)
  · have outcome := (paved_of_failed arises "d" (some ⟨2⟩) fault'' _).2 (Prod.ext refused'' rfl)
    have gone : ¬ forest.IsOpen (some ⟨2⟩) := by
      rw [isOpen_some_iff]
      decide
    exact (outcome.resolve_right fun both => gone both.1).2

/-- A name with an empty part at its end is refused, but its first part has become a tag. -/
theorem refused_name_leaves_tag :
    empty.Arises ∧ ((tagOrCreate "a." none).apply empty).1.toOption = none ∧
      empty.lookup? "a" = none ∧
      ((tagOrCreate "a." none).apply empty).2.lookup? "a" = some ⟨0⟩ :=
  ⟨arises_run [], by decide, by decide, by decide⟩

end Forest

end LifecycleGraph
