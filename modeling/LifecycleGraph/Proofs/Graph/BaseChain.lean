import Mathlib.Logic.Relation
import LifecycleGraph.Proofs.Graph.Schema

/-!
# Base chains that come back

A type derives from its base.  A base chain ends with a type that has no base, or it comes back
to one of its members, which is what the check of the bases looks for.  A definition that closes
a circle has its own type on it.
-/

set_option autoImplicit false

namespace LifecycleGraph

namespace Graph

variable {graph old new : Graph} {id base last member : TypeId}

def Derives (graph : Graph) (id base : TypeId) : Prop := graph.base? id = some base

/-- The base chain of a type comes back to the type itself. -/
def Circular (graph : Graph) (id : TypeId) : Prop := Relation.TransGen graph.Derives id id

theorem Derives.unique {other : TypeId} (derives : graph.Derives id base)
    (also : graph.Derives id other) : base = other :=
  Option.some.inj (derives.symm.trans also)

/-- From a circle the bases lead round it. -/
theorem Circular.onwards (circular : graph.Circular id)
    (above : Relation.ReflTransGen graph.Derives id member) : graph.Circular member := by
  induction above with
  | refl => exact circular
  | tail _ derives inductionHypothesis =>
      obtain ⟨next, isNext, back⟩ := Relation.TransGen.head'_iff.mp inductionHypothesis
      exact isNext.unique derives ▸ .tail' back isNext

theorem Circular.exists_base (circular : graph.Circular id) : ∃ base, graph.Derives id base := by
  obtain ⟨base, derives, -⟩ := Relation.TransGen.head'_iff.mp circular
  exact ⟨base, derives⟩

/-- The chain of a type among those that were not seen ends with a type without a base, or with
one whose base was seen or stands on the chain. -/
theorem Typed.exists_last (typed : graph.Typed) (fuel : Nat) {seen : List TypeId}
    (nodup : seen.Nodup) (declared : ∀ id ∈ seen, id.index < graph.types.size)
    (unseen : id ∉ seen) (here : id.index < graph.types.size)
    (enough : graph.types.size < fuel + seen.length) :
    ∃ last, (graph.chainFrom fuel seen id).getLast? = some last ∧
      Relation.ReflTransGen graph.Derives id last ∧
      ∀ base, graph.Derives last base →
        base ∈ seen ∨ Relation.ReflTransGen graph.Derives id base ∧
          Relation.ReflTransGen graph.Derives base last := by
  induction fuel generalizing seen id with
  | zero =>
      have few := length_seen_le nodup declared
      omega
  | succ fuel inductionHypothesis =>
      have isNew : seen.contains id = false := by simpa using unseen
      simp only [chainFrom, isNew, Bool.false_eq_true, if_false]
      cases above : graph.base? id with
      | none =>
          refine ⟨id, rfl, .refl, fun base derives => ?_⟩
          rw [Derives, above] at derives
          cases derives
      | some base =>
          have derives : graph.Derives id base := above
          simp only
          by_cases again : base ∈ id :: seen
          · have ends : graph.chainFrom fuel (id :: seen) base = [] := by
              cases fuel with
              | zero => rfl
              | succ fuel => simp only [chainFrom, List.contains_iff_mem.mpr again, if_true]
            refine ⟨id, by rw [ends]; rfl, .refl, fun other also => ?_⟩
            obtain rfl := derives.unique also
            rcases List.mem_cons.mp again with rfl | isSeen
            · exact .inr ⟨.refl, .refl⟩
            · exact .inl isSeen
          · have more : (id :: seen).Nodup := List.nodup_cons.mpr ⟨unseen, nodup⟩
            have known : ∀ other ∈ id :: seen, other.index < graph.types.size :=
              List.forall_mem_cons.mpr ⟨here, declared⟩
            obtain ⟨last, isLast, reaches, returns⟩ :=
              inductionHypothesis more known again (typed.based derives)
                (by simp only [List.length_cons]; omega)
            refine ⟨last, ?_, .head derives reaches, fun other isBase => ?_⟩
            · rw [List.getLast?_cons, isLast]
              rfl
            rcases returns other isBase with isSeen | ⟨reached, back⟩
            · rcases List.mem_cons.mp isSeen with rfl | before
              · exact .inr ⟨.refl, .head derives reaches⟩
              · exact .inl before
            · exact .inr ⟨.head derives reached, back⟩

/-- The chain of a type is cyclic exactly if it leads to a type whose chain comes back to it. -/
theorem Typed.isCyclic_iff (typed : graph.Typed) (here : id.index < graph.types.size) :
    graph.isCyclic id = true ↔
      ∃ member, Relation.ReflTransGen graph.Derives id member ∧ graph.Circular member := by
  obtain ⟨last, isLast, reaches, returns⟩ :=
    typed.exists_last (graph.types.size + 1) List.nodup_nil (fun _ member => by cases member)
      List.not_mem_nil here (by simp)
  have isCyclic : graph.isCyclic id = (graph.base? last).isSome := by
    rw [Graph.isCyclic, ancestors, isLast, Option.bind_some]
  rw [isCyclic, Option.isSome_iff_exists]
  constructor
  · rintro ⟨base, derives⟩
    obtain ⟨reached, back⟩ := (returns base derives).resolve_left List.not_mem_nil
    exact ⟨base, reached, .tail' back derives⟩
  · rintro ⟨member, reached, circular⟩
    -- The chain has one way on from each type, so the circle and the end are on one way.
    have unique : Relator.RightUnique graph.Derives := fun _ _ _ => Derives.unique
    rcases Relation.ReflTransGen.total_of_right_unique unique reached reaches with onwards | before
    · exact (circular.onwards onwards).exists_base
    · rcases Relation.ReflTransGen.cases_head before with rfl | ⟨base, derives, -⟩
      · exact circular.exists_base
      · exact ⟨base, derives⟩

/-- The check of the bases passes exactly if no type is on a circle. -/
theorem Typed.cyclicType?_eq_none_iff (typed : graph.Typed) :
    graph.cyclicType? = none ↔ ∀ id, ¬ graph.Circular id := by
  have declared {type : NodeType} (member : type ∈ graph.types.members) :
      type.id.index < graph.types.size :=
    (typed.mem_handles type.id).mp (List.mem_map_of_mem member)
  rw [cyclicType?, List.find?_eq_none]
  constructor
  · intro none id circular
    obtain ⟨base, derives⟩ := circular.exists_base
    obtain ⟨type, found, -⟩ := Option.bind_eq_some_iff.mp derives
    have member := (graph.types.mem_members_iff type).mpr ⟨id.index, found⟩
    refine none type member ((typed.isCyclic_iff (declared member)).mpr ⟨id, ?_, circular⟩)
    exact (typed.stamped found).1 ▸ .refl
  · intro none type member isCyclic
    obtain ⟨other, -, circular⟩ := (typed.isCyclic_iff (declared member)).mp isCyclic
    exact none other circular

/-- Where one type has another base, a circle was there before or goes through this type. -/
theorem Circular.before_or_through (circular : new.Circular member)
    (others : ∀ other, other ≠ id → new.base? other = old.base? other) :
    old.Circular member ∨ new.Circular id := by
  have before_or_through {start finish : TypeId}
      (leads : Relation.TransGen new.Derives start finish) :
      Relation.TransGen old.Derives start finish ∨
        Relation.ReflTransGen new.Derives start id ∧ Relation.TransGen new.Derives id finish := by
    induction leads with
    | @single finish derives =>
        by_cases same : start = id
        · exact .inr ⟨same ▸ .refl, same ▸ .single derives⟩
        · exact .inl (.single ((others start same).symm.trans derives))
    | @tail middle finish leads derives inductionHypothesis =>
        rcases inductionHypothesis with isOld | ⟨reaches, onwards⟩
        · by_cases same : middle = id
          · exact .inr ⟨same ▸ leads.to_reflTransGen, same ▸ .single derives⟩
          · exact .inl (isOld.tail ((others middle same).symm.trans derives))
        · exact .inr ⟨reaches, onwards.tail derives⟩
  exact (before_or_through circular).imp_right fun ⟨reaches, onwards⟩ =>
    onwards.trans_left reaches

end Graph

end LifecycleGraph
