import Mathlib.Data.List.Induction
import LifecycleGraph.Proofs.Forest.Growth
import LifecycleGraph.Proofs.Forest.Path

/-!
# Creating tags by path

A path of valid names leads from a place, which is among the roots or below a tag, to a tag:
the tags on the way that are there are passed, and the others are added.  A name that is not
valid stops the way, and the tags before it stay.  What a name finds in a place after it was
created there is the first tag on the way that answers to it.
-/

set_option autoImplicit false

namespace LifecycleGraph

namespace Forest

variable {forest changed : Forest} {parent answer : Option TagId} {id ns : TagId} {tag : Tag}
  {name : String} {above names : List String}

/-! ## Places -/

/-- The names on the way to a place for tags: none to that of the roots, and to that below a tag
the names of its path. -/
def Place (forest : Forest) : Option TagId → List String → Prop
  | none, above => above = []
  | some ns, above => forest.RootPath ns above

def pathAbove (forest : Forest) (parent : Option TagId) : List String :=
  (parent.map forest.path).getD []

/-- The parent is there, if one is given. -/
def IsOpen (forest : Forest) (parent : Option TagId) : Prop :=
  ∀ ns, parent = some ns → forest.contains ns = true

theorem isOpen_none (forest : Forest) : forest.IsOpen none := by
  rintro _ ⟨⟩

theorem isOpen_some_iff (ns : TagId) : forest.IsOpen (some ns) ↔ forest.contains ns = true :=
  ⟨fun isOpen => isOpen ns rfl, fun present _ same => Option.some.inj same ▸ present⟩

theorem Rooted.place_iff (rooted : forest.Rooted) (parent : Option TagId) (above : List String) :
    forest.Place parent above ↔ forest.IsOpen parent ∧ forest.pathAbove parent = above := by
  cases parent with
  | none =>
      exact ⟨fun place => ⟨isOpen_none forest, place.symm⟩, fun both => both.2.symm⟩
  | some ns =>
      exact (rooted.rootPath_iff ns above).trans (and_congr_left fun _ => (isOpen_some_iff ns).symm)

theorem Rooted.eq_of_place (rooted : forest.Rooted) {other : Option TagId}
    (place : forest.Place parent above) (also : forest.Place other above) : parent = other := by
  cases parent with
  | none =>
      obtain rfl := place
      cases other with
      | none => rfl
      | some ns => exact absurd rfl also.ne_nil
  | some ns =>
      cases other with
      | none => exact absurd also place.ne_nil
      | some up => rw [rooted.eq_of_rootPath place also]

/-- The path of a tag has its own name behind the names to its place. -/
theorem rootPath_iff_place (found : forest.find? id = some tag) (names : List String) :
    forest.RootPath id names ↔
      ∃ above, forest.Place tag.parent above ∧ names = above ++ [tag.name] := by
  constructor
  · intro isPath
    cases isPath with
    | root isTag isRoot =>
        obtain rfl := Option.some.inj (found.symm.trans isTag)
        exact ⟨[], by rw [isRoot]; rfl, rfl⟩
    | child isTag isParent isAbove =>
        obtain rfl := Option.some.inj (found.symm.trans isTag)
        exact ⟨_, by rw [isParent]; exact isAbove, rfl⟩
  · rintro ⟨above, place, rfl⟩
    cases isParent : tag.parent with
    | none =>
        rw [isParent] at place
        obtain rfl := place
        exact .root found isParent
    | some ns =>
        rw [isParent] at place
        exact .child found isParent place

/-- On the way to a tag is a tag for each path that its own begins with. -/
theorem Rooted.exists_rootPath (rooted : forest.Rooted) (notEmpty : above ≠ [])
    (isPath : forest.RootPath id (above ++ names)) :
    ∃ upper, forest.RootPath upper above ∧ (names ≠ [] → forest.Descends id upper) := by
  induction names using List.reverseRecOn generalizing id with
  | nil => exact ⟨id, by simpa using isPath, fun absurdity => absurd rfl absurdity⟩
  | append_singleton names last inductionHypothesis =>
      generalize whole : above ++ (names ++ [last]) = path at isPath
      rw [← List.append_assoc] at whole
      cases isPath with
      | root =>
          exact absurd (List.append_eq_singleton_iff.mp whole) (by simp [notEmpty])
      | @child _ parent tag _ found isParent isAbove =>
          obtain ⟨rfl, -⟩ := List.append_inj' whole rfl
          obtain ⟨upper, isUpper, descends⟩ := inductionHypothesis isAbove
          have step : forest.parent? id = some parent := by rw [parent?_of_found found, isParent]
          refine ⟨upper, isUpper, fun _ => ?_⟩
          cases names with
          | nil =>
              rw [List.append_nil] at isAbove
              exact rooted.eq_of_rootPath isUpper isAbove ▸ .single step
          | cons => exact .head step (descends (List.cons_ne_nil _ _))

/-- Of two tags on one way the one with the shorter path is older. -/
theorem Rooted.lt_of_rootPath (rooted : forest.Rooted) {upper : TagId} (notEmpty : above ≠ [])
    (isUpper : forest.RootPath upper above) (isPath : forest.RootPath id (above ++ names))
    (further : names ≠ []) : upper.index < id.index := by
  obtain ⟨same, isSame, descends⟩ := rooted.exists_rootPath notEmpty isPath
  obtain rfl := rooted.eq_of_rootPath isUpper isSame
  exact rooted.lt_of_descends (descends further)

/-- A tag is there below the parent; without a parent every tag is. -/
def Within (forest : Forest) : Option TagId → TagId → Prop
  | none, _ => True
  | some ns, id => forest.Below ns id

theorem Rooted.within_of_rootPath (rooted : forest.Rooted) (place : forest.Place parent above)
    (further : names ≠ []) (isPath : forest.RootPath id (above ++ names)) :
    forest.Within parent id := by
  cases parent with
  | none => trivial
  | some ns =>
      obtain ⟨upper, isUpper, descends⟩ := rooted.exists_rootPath place.ne_nil isPath
      obtain rfl := rooted.eq_of_rootPath place isUpper
      exact (rooted.descends_iff_below id ns).mp (descends further)

/-! ## Paths in forests that grow -/

theorem Grows.rootPath {old new : Forest} (grows : old.Grows new)
    (isPath : old.RootPath id names) : new.RootPath id names := by
  induction isPath with
  | root found isRoot =>
      obtain ⟨tag', found', parents, same⟩ := grows.kept found
      exact same ▸ .root found' (parents.trans isRoot)
  | child found isParent _ inductionHypothesis =>
      obtain ⟨tag', found', parents, same⟩ := grows.kept found
      exact same ▸ .child found' (parents.trans isParent) inductionHypothesis

theorem Grows.place {old new : Forest} (grows : old.Grows new) (place : old.Place parent above) :
    new.Place parent above := by
  cases parent with
  | none => exact place
  | some ns => exact grows.rootPath place

/-- The path of a tag that was there is the one that it had. -/
theorem LinkedFrom.rootPath_old {old new : Forest} (grown : LinkedFrom old new)
    (linked : old.Linked) (present : old.contains id = true) (isPath : new.RootPath id names) :
    old.RootPath id names := by
  have before := linked.rooted.rootPath_path present
  have again := ((grown.1.rooted.rootPath_iff id _).mp (grown.2.rootPath before)).2
  rwa [← again, ((grown.1.rooted.rootPath_iff id _).mp isPath).2] at before

theorem LinkedFrom.within_old {old new : Forest} (grown : LinkedFrom old new)
    (linked : old.Linked) (present : old.contains id = true) (within : new.Within parent id) :
    old.Within parent id := by
  cases parent with
  | none => trivial
  | some ns =>
      exact ⟨within.1, (grown.2.isa linked.rooted grown.1.rooted present ns).symm.trans within.2⟩

/-! ## Adding a path -/

theorem Rooted.contains_of_rootPath (rooted : forest.Rooted) (isPath : forest.RootPath id names) :
    forest.contains id = true := ((rooted.rootPath_iff id names).mp isPath).1

/-- What has become of a forest in which a path of names was added in a place: there is a tag for
each name on the way, and no other tag is new. -/
structure Paved (old new : Forest) (above names : List String) : Prop where
  grown : LinkedFrom old new
  reached : ∀ way, way <+: names → way ≠ [] → ∃ id, new.RootPath id (above ++ way)
  added : ∀ id path, new.RootPath id path →
    old.contains id = true ∨ ∃ way, way <+: names ∧ way ≠ [] ∧ path = above ++ way
  passed : (names = [] ∨ ∃ id, old.RootPath id (above ++ names)) → new = old

theorem paved_nil (linked : forest.Linked) : Paved forest forest above [] where
  grown := linkedFrom_self linked
  reached _ isWay notEmpty := absurd (List.prefix_nil.mp isWay) notEmpty
  added _ _ isPath := .inl (linked.rooted.contains_of_rootPath isPath)
  passed _ := rfl

/-- Nothing is new exactly if the last tag on the way was there. -/
theorem Paved.eq_iff {old new : Forest} (paved : Paved old new above names) :
    new = old ↔ names = [] ∨ ∃ id, old.RootPath id (above ++ names) := by
  refine ⟨fun same => ?_, paved.passed⟩
  rcases eq_or_ne names [] with empty | notEmpty
  · exact .inl empty
  · obtain ⟨id, isPath⟩ := paved.reached names (List.prefix_refl _) notEmpty
    exact .inr ⟨id, same ▸ isPath⟩

/-- The tag of a valid name in a place is passed or added. -/
theorem leads_add_place (linked : forest.Linked) (place : forest.Place parent above)
    (valid : validName name = true) :
    (add parent name).Leads forest
      (fun id changed => changed.RootPath id (above ++ [name]) ∧ Paved forest changed above [name])
      (fun _ => False) := by
  obtain ⟨isOpen, -⟩ := (linked.rooted.place_iff parent above).mp place
  -- On a way of one name are only the place and the tag of the name.
  have paves {id : TagId} {changed : Forest} (grown : LinkedFrom forest changed)
      (isPath : changed.RootPath id (above ++ [name]))
      (added : ∀ other, changed.contains other = true → forest.contains other = true ∨ other = id)
      (passed : (∃ other, forest.RootPath other (above ++ [name])) → changed = forest) :
      changed.RootPath id (above ++ [name]) ∧ Paved forest changed above [name] := by
    refine ⟨isPath, grown, fun way isWay notEmpty => ?_, fun other path isOther => ?_,
      fun known => passed (known.resolve_left (List.cons_ne_nil _ _))⟩
    · obtain rfl := isWay.eq_of_length_le (List.length_pos_iff.mpr notEmpty)
      exact ⟨id, isPath⟩
    · refine (added other (grown.1.rooted.contains_of_rootPath isOther)).imp_right ?_
      rintro rfl
      have same := ((grown.1.rooted.rootPath_iff other _).mp isPath).2.symm.trans
        ((grown.1.rooted.rootPath_iff other path).mp isOther).2
      exact ⟨[name], List.prefix_refl _, List.cons_ne_nil _ _, same.symm⟩
  rw [add, Change.leads_ofFunction]
  simp only [valid, Bool.not_true, Bool.false_eq_true, if_false]
  cases existing : forest.child? parent name with
  | some id =>
      have sibling := List.mem_of_find?_eq_some existing
      obtain ⟨tag, found, isParent⟩ := (linked.rooted.mem_siblings_iff isOpen id).mp sibling
      have isName : tag.name = name := by simpa [found] using List.find?_some existing
      have isPath : forest.RootPath id (above ++ [name]) :=
        (rootPath_iff_place found _).mpr ⟨above, isParent ▸ place, by rw [isName]⟩
      exact paves (linkedFrom_self linked) isPath (fun _ => .inl) fun _ => rfl
  | none =>
      have grown : LinkedFrom forest (forest.attach parent name) :=
        ⟨linked.attach isOpen existing valid, grows_attach⟩
      have isPath : (forest.attach parent name).RootPath forest.nextId (above ++ [name]) :=
        (rootPath_iff_place find?_attach_nextId _).mpr ⟨above, grown.2.place place, rfl⟩
      have paved := paves grown isPath (fun other present => ?_) ?_
      · cases parent with
        | none => exact paved
        | some ns =>
            simp only [(isOpen_some_iff ns).mp isOpen, if_true]
            exact paved
      · obtain ⟨tag, found⟩ := (contains_iff other).mp present
        rcases find?_of_attach found with ⟨rfl, -⟩ | ⟨before, isBefore, -⟩
        · exact .inr rfl
        · exact .inl ((contains_iff other).mpr ⟨before, isBefore⟩)
      · -- A tag that had the path would be a sibling with the name.
        rintro ⟨other, isOther⟩
        obtain ⟨tag, found⟩ := (contains_iff other).mp (linked.rooted.contains_of_rootPath isOther)
        obtain ⟨upper, isPlace, same⟩ := (rootPath_iff_place found _).mp isOther
        obtain ⟨rfl, isName⟩ := List.append_inj' same rfl
        have isParent := linked.rooted.eq_of_place isPlace place
        exact absurd (List.cons.inj isName).1.symm
          ((child?_eq_none_iff linked isOpen).mp existing other tag found isParent)

/-- A path of valid names in a place is paved up to the tag that is answered. -/
theorem leads_addPath_place (linked : forest.Linked) (place : forest.Place parent above)
    (valid : ∀ name ∈ names, validName name = true) :
    (addPath parent names).Leads forest
      (fun answer changed => changed.Place answer (above ++ names) ∧
        Paved forest changed above names)
      (fun _ => False) := by
  induction names generalizing forest parent above with
  | nil => exact ⟨by rwa [List.append_nil], paved_nil linked⟩
  | cons name rest inductionHypothesis =>
      refine Change.leads_bind _ (leads_add_place linked place (valid name (List.mem_cons_self ..)))
        fun id middle outcome => ?_
      obtain ⟨isPath, first⟩ := outcome
      have onward : middle.Place (some id) (above ++ [name]) := isPath
      refine (inductionHypothesis first.grown.1 onward
        fun other member => valid other (List.mem_cons_of_mem _ member)).imp ?_ fun _ never => never
      rintro answer changed ⟨isPlace, others⟩
      rw [List.append_assoc] at isPlace
      refine ⟨isPlace, first.grown.trans others.grown, ?_, ?_, ?_⟩
      · intro way isWay notEmpty
        obtain ⟨further, rfl, isFurther⟩ := (List.prefix_cons_iff.mp isWay).resolve_left notEmpty
        rcases eq_or_ne further [] with rfl | more
        · exact ⟨id, others.grown.2.rootPath isPath⟩
        · obtain ⟨other, isOther⟩ := others.reached further isFurther more
          exact ⟨other, by simpa using isOther⟩
      · intro other path isOther
        rcases others.added other path isOther with present | ⟨way, isWay, -, rfl⟩
        · have before := others.grown.rootPath_old first.grown.1 present isOther
          rcases first.added other path before with old | ⟨way, isWay, notEmpty, rfl⟩
          · exact .inl old
          · obtain rfl := isWay.eq_of_length_le (List.length_pos_iff.mpr notEmpty)
            exact .inr ⟨[name], (List.prefix_cons_inj name).mpr (List.nil_prefix), notEmpty, rfl⟩
        · exact .inr ⟨name :: way, (List.prefix_cons_inj name).mpr isWay, List.cons_ne_nil _ _,
            by simp⟩
      · intro known
        obtain ⟨other, isOther⟩ := known.resolve_left (List.cons_ne_nil _ _)
        have whole : above ++ name :: rest = (above ++ [name]) ++ rest := by simp
        rw [whole] at isOther
        obtain ⟨upper, isUpper, -⟩ := linked.rooted.exists_rootPath (by simp) isOther
        obtain rfl := first.passed (.inr ⟨upper, isUpper⟩)
        exact others.passed (.inr ⟨other, isOther⟩)

/-! ## Names that stop the way -/

theorem apply_addPath_append (parent : Option TagId) (names rest : List String)
    (forest : Forest) :
    (addPath parent (names ++ rest)).apply forest =
      match (addPath parent names).apply forest with
      | (.ok answer, changed) => (addPath answer rest).apply changed
      | (.error fault, changed) => (.error fault, changed) := by
  induction names generalizing parent forest with
  | nil => rfl
  | cons name names inductionHypothesis =>
      simp only [List.cons_append, addPath, Change.apply_bind]
      rcases (add parent name).apply forest with ⟨fault | id, changed⟩
      · rfl
      · exact inductionHypothesis (some id) changed

theorem apply_add_of_invalid (parent : Option TagId) (invalid : validName name = false)
    (forest : Forest) :
    (add parent name).apply forest = (.error (.schema (.invalidTagName name)), forest) := by
  rw [add, Change.apply_ofFunction]
  simp only [invalid, Bool.not_false, if_true]

/-- Names cannot be added below a tag that is gone. -/
theorem apply_addPath_of_gone (gone : forest.contains ns = false) (notEmpty : names ≠ []) :
    ∃ fault, (addPath (some ns) names).apply forest = (.error fault, forest) := by
  have refused (name : String) :
      ∃ fault, (add (some ns) name).apply forest = (.error fault, forest) := by
    rw [add, Change.apply_ofFunction]
    have noTag : forest.find? ns = none :=
      Option.isNone_iff_eq_none.mp (Option.isSome_eq_false_iff.mp gone)
    have noChild : forest.child? (some ns) name = none := by simp [child?, siblings, noTag]
    by_cases valid : validName name = true
    · simp only [valid, noChild, gone, Bool.not_true, Bool.false_eq_true, if_false]
      exact ⟨_, rfl⟩
    · exact ⟨_, if_pos (by simpa using valid)⟩
  obtain ⟨name, rest, rfl⟩ := List.exists_cons_of_ne_nil notEmpty
  obtain ⟨fault, stopped⟩ := refused name
  exact ⟨fault, by simp only [addPath, Change.apply_bind, stopped]⟩

/-- The first name that is not valid stops the way behind the names before it. -/
theorem exists_paved_of_invalid (linked : forest.Linked) (place : forest.Place parent above)
    (invalid : ∃ name ∈ names, validName name = false) :
    ∃ leading bad rest changed, names = leading ++ bad :: rest ∧
      (∀ name ∈ leading, validName name = true) ∧ validName bad = false ∧
      (addPath parent names).apply forest = (.error (.schema (.invalidTagName bad)), changed) ∧
      Paved forest changed above leading := by
  have exists_bad : ∃ bad, names.find? (fun name => !validName name) = some bad := by
    rw [← Option.isSome_iff_exists, List.find?_isSome]
    obtain ⟨name, member, isInvalid⟩ := invalid
    exact ⟨name, member, by simp [isInvalid]⟩
  obtain ⟨bad, found⟩ := exists_bad
  obtain ⟨isBad, leading, rest, rfl, before⟩ := List.find?_eq_some_iff_append.mp found
  have isInvalid : validName bad = false := by simpa using isBad
  have valid : ∀ name ∈ leading, validName name = true :=
    fun name member => by simpa using before name member
  obtain ⟨answer, changed, applied, -, paved⟩ :=
    (leads_addPath_place linked place valid).exists_answer
  refine ⟨leading, bad, rest, changed, rfl, valid, isInvalid, ?_, paved⟩
  rw [apply_addPath_append, applied]
  simp only [addPath, Change.apply_bind, apply_add_of_invalid answer isInvalid]

/-! ## What is found in a place -/

/-- What a name finds below a tag or, without one, anywhere. -/
def sought? (forest : Forest) : Option TagId → String → Option TagId
  | some ns, name => forest.lookupBelow? ns name
  | none, name => forest.lookup? name

theorem Linked.sought?_eq_some_iff (linked : forest.Linked) (parent : Option TagId) (name : String)
    (id : TagId) :
    forest.sought? parent name = some id ↔
      (forest.Answers (Text.parts '.' name) id ∧ forest.Within parent id) ∧
        ∀ other, forest.Answers (Text.parts '.' name) other → forest.Within parent other →
          id.index ≤ other.index := by
  cases parent with
  | none => simpa [Within, sought?] using linked.lookup?_eq_some_iff name id
  | some ns => exact linked.lookupBelow?_eq_some_iff ns name id

theorem Linked.exists_sought? (linked : forest.Linked) (parent : Option TagId)
    {name : String} (answers : forest.Answers (Text.parts '.' name) id)
    (within : forest.Within parent id) : ∃ found, forest.sought? parent name = some found := by
  have exist : ∃ id, forest.Answers (Text.parts '.' name) id ∧ forest.Within parent id :=
    ⟨id, answers, within⟩
  obtain ⟨found, both, oldest⟩ := exists_oldest exist
  exact ⟨found, (linked.sought?_eq_some_iff parent name found).mpr
    ⟨both, fun other isAnswer isWithin => oldest other ⟨isAnswer, isWithin⟩⟩⟩

theorem apply_tagOrCreate (name : String) (parent : Option TagId) (forest : Forest) :
    (tagOrCreate name parent).apply forest =
      match forest.sought? parent name with
      | some id => (.ok id, forest)
      | none =>
          match (addPath parent (Text.parts '.' name)).apply forest with
          | (.ok (some id), changed) => (.ok id, changed)
          | (.ok none, changed) => (.error (.schema (.invalidTagName name)), changed)
          | (.error fault, changed) => (.error fault, changed) := by
  have created : (addPath parent (Text.parts '.' name) >>= fun answer =>
      match answer with
      | some id => pure id
      | none => .stop (.schema (.invalidTagName name))).apply forest =
        match (addPath parent (Text.parts '.' name)).apply forest with
        | (.ok (some id), changed) => (.ok id, changed)
        | (.ok none, changed) => (.error (.schema (.invalidTagName name)), changed)
        | (.error fault, changed) => (.error fault, changed) := by
    rw [Change.apply_bind]
    rcases (addPath parent (Text.parts '.' name)).apply forest with ⟨fault | answer, changed⟩
    · rfl
    · cases answer <;> rfl
  rw [tagOrCreate, Change.apply_bind, Change.apply_get]
  cases parent with
  | none =>
      simp only [sought?]
      cases forest.lookup? name with
      | some id => rfl
      | none => exact created
  | some ns =>
      simp only [sought?]
      cases forest.lookupBelow? ns name with
      | some id => rfl
      | none => exact created

/-- On the way that the names lead from the place, they are answered before its end. -/
def Repeats (above names : List String) : Prop :=
  ∃ way, way <+: names ∧ way ≠ [] ∧ way ≠ names ∧ names <:+ above ++ way

theorem not_repeats_nil (names : List String) : ¬ Repeats [] names := by
  rintro ⟨way, isWay, -, notAll, isSuffix⟩
  exact notAll (isWay.eq_of_length_le isSuffix.length_le)

/-- Names do not repeat if the last of them is none of the others. -/
theorem not_repeats_of_last {leaf : String} {before : List String} (fresh : leaf ∉ before) :
    ¬ Repeats above (before ++ [leaf]) := by
  rintro ⟨way, isWay, notEmpty, notAll, isSuffix⟩
  obtain ⟨skipped, parted⟩ := isSuffix
  have last : (above ++ way).getLast? = some leaf := by
    rw [← parted, ← List.append_assoc, List.getLast?_concat]
  rw [List.getLast?_append_of_ne_nil above notEmpty] at last
  have isShorter := (List.prefix_concat_iff.mp isWay).resolve_left notAll
  exact fresh (isShorter.subset (List.mem_of_getLast? last))

/-! ## Finding or creating a tag -/

/-- What answers to a name in a place after the way there was paved, and did not before, stands
on the way. -/
theorem Paved.exists_way {new : Forest} (paved : Paved forest new above (Text.parts '.' name))
    (linked : forest.Linked) (unsought : forest.sought? parent name = none)
    (answers : new.Answers (Text.parts '.' name) id) (within : new.Within parent id) :
    ∃ way, way <+: Text.parts '.' name ∧ way ≠ [] ∧ new.RootPath id (above ++ way) ∧
      Text.parts '.' name <:+ above ++ way := by
  obtain ⟨path, isPath, isSuffix⟩ := (paved.grown.1.answers_iff _ id).mp answers
  rcases paved.added id path isPath with present | ⟨way, isWay, notEmpty, rfl⟩
  · have before := (linked.answers_iff _ id).mpr
      ⟨path, paved.grown.rootPath_old linked present isPath, isSuffix⟩
    obtain ⟨found, isFound⟩ := linked.exists_sought? parent before
      (paved.grown.within_old linked present within)
    rw [unsought] at isFound
    cases isFound
  · exact ⟨way, isWay, notEmpty, isPath, isSuffix⟩

/-- What is found in a place after the way there was paved is the tag at its end, unless the names
are answered before. -/
theorem Paved.exists_sought? {new : Forest} (paved : Paved forest new above (Text.parts '.' name))
    (linked : forest.Linked) (place : forest.Place parent above)
    (unsought : forest.sought? parent name = none)
    (isPath : new.RootPath id (above ++ Text.parts '.' name)) :
    ∃ found, new.sought? parent name = some found ∧
      (found = id ↔ ¬ Repeats above (Text.parts '.' name)) := by
  have rooted := paved.grown.1.rooted
  have newPlace := paved.grown.2.place place
  have candidate {other : TagId} {way : List String} (notEmpty : way ≠ [])
      (isOther : new.RootPath other (above ++ way))
      (isSuffix : Text.parts '.' name <:+ above ++ way) :
      new.Answers (Text.parts '.' name) other ∧ new.Within parent other :=
    ⟨(paved.grown.1.answers_iff _ other).mpr ⟨_, isOther, isSuffix⟩,
      rooted.within_of_rootPath newPlace notEmpty isOther⟩
  obtain ⟨answers, within⟩ :=
    candidate (Text.parts_ne_nil '.' name) isPath (List.suffix_append above _)
  obtain ⟨found, isFound⟩ := paved.grown.1.exists_sought? parent answers within
  obtain ⟨⟨foundAnswers, foundWithin⟩, oldest⟩ :=
    (paved.grown.1.sought?_eq_some_iff parent name found).mp isFound
  refine ⟨found, isFound, ?_, fun straight => ?_⟩
  · -- A tag before the end of the way is older than the one at the end.
    rintro rfl ⟨way, isWay, notEmpty, notAll, isSuffix⟩
    obtain ⟨earlier, isEarlier⟩ := paved.reached way isWay notEmpty
    obtain ⟨isAnswer, isWithin⟩ := candidate notEmpty isEarlier isSuffix
    obtain ⟨further, whole⟩ := isWay
    have more : further ≠ [] := by
      rintro rfl
      exact notAll (by rw [← whole, List.append_nil])
    rw [← whole, ← List.append_assoc] at isPath
    have older := rooted.lt_of_rootPath (List.append_ne_nil_of_right_ne_nil above notEmpty)
      isEarlier isPath more
    exact absurd (oldest earlier isAnswer isWithin) (by omega)
  · obtain ⟨way, isWay, notEmpty, isFoundPath, isSuffix⟩ :=
      paved.exists_way linked unsought foundAnswers foundWithin
    have all : way = Text.parts '.' name := by
      by_contra notAll
      exact straight ⟨way, isWay, notEmpty, notAll, isSuffix⟩
    exact rooted.eq_of_rootPath (all ▸ isFoundPath) isPath

/-- A tag that is answered was found, or the way to it is paved. -/
theorem Linked.found_or_paved (linked : forest.Linked) (isOpen : forest.IsOpen parent)
    (answered : (tagOrCreate name parent).apply forest = (.ok id, changed)) :
    forest.sought? parent name = some id ∧ changed = forest ∨
      forest.sought? parent name = none ∧
        changed.RootPath id (forest.pathAbove parent ++ Text.parts '.' name) ∧
        Paved forest changed (forest.pathAbove parent) (Text.parts '.' name) := by
  have place := (linked.rooted.place_iff parent _).mpr ⟨isOpen, rfl⟩
  rw [apply_tagOrCreate] at answered
  cases sought : forest.sought? parent name with
  | some found =>
      rw [sought] at answered
      cases answered
      exact .inl ⟨rfl, rfl⟩
  | none =>
      rw [sought] at answered
      simp only at answered
      by_cases valid : ∀ part ∈ Text.parts '.' name, validName part = true
      · obtain ⟨last, paved, applied, isPlace, isPaved⟩ :=
          (leads_addPath_place linked place valid).exists_answer
        rw [applied] at answered
        cases last with
        | none => cases answered
        | some last =>
            cases answered
            exact .inr ⟨rfl, isPlace, isPaved⟩
      · obtain ⟨leading, bad, rest, left, -, -, -, applied, -⟩ :=
          exists_paved_of_invalid linked place (by simpa using valid)
        rw [applied] at answered
        cases answered

/-- A tag that can be neither found nor created has a parent that is gone, or a name with an empty
part, before which the way is paved. -/
theorem Linked.gone_or_paved (linked : forest.Linked) {fault : Fault}
    (failed : (tagOrCreate name parent).apply forest = (.error fault, changed)) :
    ¬ forest.IsOpen parent ∧ changed = forest ∨
      forest.IsOpen parent ∧ fault = .schema (.invalidTagName "") ∧
        ∃ leading rest, Text.parts '.' name = leading ++ "" :: rest ∧ "" ∉ leading ∧
          Paved forest changed (forest.pathAbove parent) leading := by
  have notEmpty := Text.parts_ne_nil '.' name
  rw [apply_tagOrCreate] at failed
  cases sought : forest.sought? parent name with
  | some found =>
      rw [sought] at failed
      cases failed
  | none =>
      rw [sought] at failed
      simp only at failed
      by_cases isOpen : forest.IsOpen parent
      · have place := (linked.rooted.place_iff parent _).mpr ⟨isOpen, rfl⟩
        by_cases valid : ∀ part ∈ Text.parts '.' name, validName part = true
        · obtain ⟨last, paved, applied, isPlace, -⟩ :=
            (leads_addPath_place linked place valid).exists_answer
          rw [applied] at failed
          cases last with
          | none => exact absurd isPlace (List.append_ne_nil_of_right_ne_nil _ notEmpty)
          | some last => cases failed
        · obtain ⟨leading, bad, rest, left, whole, isValid, invalid, applied, paved⟩ :=
            exists_paved_of_invalid linked place (by simpa using valid)
          rw [applied] at failed
          cases failed
          have isEmpty : bad = "" := by
            have noDot := Text.not_mem_of_mem_parts (whole ▸ List.mem_append_right leading
              (List.mem_cons_self ..) : bad ∈ Text.parts '.' name)
            simpa [validName, noDot] using invalid
          subst isEmpty
          exact .inr ⟨isOpen, rfl, leading, rest, whole,
            fun member => absurd (isValid "" member) (by decide), paved⟩
      · cases parent with
        | none => exact absurd (isOpen_none forest) isOpen
        | some ns =>
            have gone : forest.contains ns = false := by simpa [isOpen_some_iff] using isOpen
            obtain ⟨refused, applied⟩ := apply_addPath_of_gone gone notEmpty
            rw [applied] at failed
            cases failed
            exact .inl ⟨isOpen, rfl⟩

end Forest

end LifecycleGraph
