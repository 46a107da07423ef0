import LifecycleGraph.Proofs.Forest.Walk

/-!
# Runs on a forest

Tags are configured, added one by one or on the way to a dotted name, removed with all below
them, or cleared away all at once.  Whatever is done to the empty forest, with any arguments
and in any order, and also where a configuration stops half way, leaves a forest that is
linked, so that its walks tell the same as the lineages of its tags.
-/

set_option autoImplicit false

namespace LifecycleGraph

namespace Forest

inductive Operation where
  | configure (parent : Option TagId) (data : Json)
  | add (parent : Option TagId) (name : String)
  | tagOrCreate (name : String) (parent : Option TagId)
  | remove (id : TagId)
  | clear

/-- The forest that an operation leaves, however it ends. -/
def Operation.perform : Operation → Forest → Forest
  | configure parent data, forest => ((Forest.configure parent data).apply forest).2
  | add parent name, forest => ((Forest.add parent name).apply forest).2
  | tagOrCreate name parent, forest => ((Forest.tagOrCreate name parent).apply forest).2
  | remove id, forest => (forest.remove id).2
  | clear, _ => .empty

def Operation.run (operations : List Operation) (forest : Forest) : Forest :=
  operations.foldl (fun forest operation => operation.perform forest) forest

/-- A walk lists the tags that are a kind of its start, and the list of all tags those that
are there, each tag once. -/
structure Walked (forest : Forest) : Prop where
  walkNodup : ∀ id, (forest.walk id).Nodup
  walk : ∀ id member, member ∈ forest.walk id ↔
    forest.contains member = true ∧ forest.isa member id = true
  allNodup : forest.all.Nodup
  all : ∀ id, id ∈ forest.all ↔ forest.contains id = true

variable {forest : Forest}

theorem Rooted.walked (rooted : forest.Rooted) : forest.Walked :=
  ⟨rooted.nodup_walk, rooted.mem_walk_iff, rooted.nodup_all, rooted.mem_all_iff⟩

theorem Linked.perform (linked : forest.Linked) (operation : Operation) :
    (operation.perform forest).Linked := by
  have left {α : Type} {change : Change Forest α} (keeps : change.Keeps (LinkedFrom forest)) :
      (change.apply forest).2.Linked :=
    (keeps forest (linkedFrom_self linked)).state_apply.1
  cases operation with
  | configure parent data => exact left (keeps_configure parent data)
  | add parent name => exact left (keeps_add parent name)
  | tagOrCreate name parent => exact left (keeps_tagOrCreate name parent)
  | remove id => exact linked.remove id
  | clear => exact linked_empty

theorem Linked.run (linked : forest.Linked) (operations : List Operation) :
    (Operation.run operations forest).Linked := by
  induction operations generalizing forest with
  | nil => exact linked
  | cons operation rest inductionHypothesis => exact inductionHypothesis (linked.perform operation)

/-- After every run the forest is linked, and its walks list what stands below their starts. -/
theorem linked_walked_run (operations : List Operation) :
    (Operation.run operations .empty).Linked ∧ (Operation.run operations .empty).Walked :=
  have linked := linked_empty.run operations
  ⟨linked, linked.rooted.walked⟩

/-- Each tag is listed before those below it, and a removed handle is not given again. -/
example :
    (Operation.run [.add none "a", .add none "b", .tagOrCreate "c.d" (some ⟨0⟩), .add none "e",
      .remove ⟨1⟩, .add (some ⟨0⟩) "b"] .empty).all = [⟨0⟩, ⟨2⟩, ⟨3⟩, ⟨5⟩, ⟨4⟩] := by
  decide

end Forest

end LifecycleGraph
