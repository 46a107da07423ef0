import LifecycleGraph.Engine.Basic
import LifecycleGraph.Proofs.Engine.Commit
import LifecycleGraph.Proofs.Repository.Conversion

/-!
# Answers that are conclusive

An answer is conclusive unless it says that something did not come to an end.  Converters
that the repository has from the start are conclusive, and so is a dump of nodes if every
converter is.  Commits are always conclusive.
-/

set_option autoImplicit false

namespace LifecycleGraph

/-- The answer does not say that rounds were used up. -/
def Conclusive {α : Type} (answer : Except Fault α) : Prop :=
  ∀ phase limit, answer ≠ .error (.nonTermination phase limit)

section

variable {α β : Type}

theorem conclusive_ok (answer : α) : Conclusive (.ok answer : Except Fault α) :=
  fun _ _ same => by cases same

/-- It matters for what reason there is no answer, and not which answers there could be. -/
theorem Conclusive.error {fault : Fault} (conclusive : Conclusive (.error fault : Except Fault α)) :
    Conclusive (.error fault : Except Fault β) :=
  fun phase limit same => conclusive phase limit (congrArg Except.error (Except.error.inj same))

theorem Conclusive.bind {first : Except Fault α} {second : α → Except Fault β}
    (conclusive : Conclusive first) (onwards : ∀ middle, Conclusive (second middle)) :
    Conclusive (first >>= second) := by
  cases first with
  | error fault => exact conclusive.error
  | ok middle => exact onwards middle

theorem Conclusive.map {first : Except Fault α} {change : α → β} (conclusive : Conclusive first) :
    Conclusive (first.map change) := by
  cases first with
  | error fault => exact conclusive.error
  | ok middle => exact conclusive_ok (change middle)

end

theorem Change.conclusive_bind {σ α β : Type} {change : Change σ α} {next : α → Change σ β}
    {state : σ} (conclusive : Conclusive (change.apply state).1)
    (onwards : ∀ answer changed, Conclusive ((next answer).apply changed).1) :
    Conclusive ((change >>= next).apply state).1 := by
  rw [Change.apply_bind]
  cases run : change.apply state with
  | mk answer changed =>
      rw [run] at conclusive
      cases answer with
      | error fault => exact conclusive.error
      | ok answer => exact onwards answer changed

/-! ## Commits -/

theorem Graph.conclusive_setState (id : NodeId) (state : Option StateId) (graph : Graph) :
    Conclusive ((setState id state).apply graph).1 := by
  intro phase limit same
  simp only [setState, Change.apply_ofFunction] at same
  split at same
  · cases same
  · split at same
    · cases same
    · split at same <;> cases same

namespace Commit

theorem conclusive_applyAll (proposals : List Proposal) (graph : Graph) :
    Conclusive ((applyAll proposals).apply graph).1 := by
  induction proposals generalizing graph with
  | nil => exact conclusive_ok _
  | cons proposal rest inductionHypothesis =>
      rw [applyAll]
      refine Change.conclusive_bind (conclusive_ok _) fun graph changed => ?_
      split
      · refine Change.conclusive_bind (Graph.conclusive_setState _ _ _) fun _ changed => ?_
        exact Change.conclusive_bind (inductionHypothesis changed) fun _ _ => conclusive_ok _
      · exact inductionHypothesis changed

theorem conclusive_commit {σ : Type} (services : Services σ) (timeout : Nat)
    (proposals : List Proposal) (world : World σ) :
    Conclusive ((commit services timeout proposals).apply world).1 := by
  rw [commit_apply, conclude]
  split
  · exact conclusive_ok _
  · refine Change.conclusive_bind (conclusive_applyAll _ _) fun applied changed => ?_
    split
    · exact conclusive_ok _
    · exact Change.conclusive_bind (conclusive_ok _) fun _ _ => conclusive_ok _

end Commit

/-! ## Converters -/

/-- What the converter writes, or why it does not, is conclusive. -/
def Converter.Conclusive (converter : Converter) : Prop :=
  ∀ value type graph, LifecycleGraph.Conclusive (converter.encode value type graph)

def Converters.Conclusive (converters : Converters) : Prop :=
  ∀ name converter, converters.byName.find? name = some converter → converter.Conclusive

namespace Converter

theorem conclusive_finite (number : Float) : LifecycleGraph.Conclusive (finite number) := by
  intro phase limit same
  rw [finite] at same
  split at same <;> cases same

theorem conclusive_text : text.Conclusive := by
  intro value type graph phase limit same
  cases value <;> cases same

theorem conclusive_number : number.Conclusive := by
  intro value type graph
  cases value with
  | number content => exact conclusive_finite content
  | _ => exact fun _ _ same => by cases same

theorem conclusive_integer : integer.Conclusive := by
  intro value type graph phase limit same
  cases value <;> cases same

theorem conclusive_boolean : boolean.Conclusive := by
  intro value type graph phase limit same
  cases value <;> cases same

theorem conclusive_tag : tag.Conclusive := by
  intro value type graph phase limit same
  cases value with
  | tag id =>
      simp only [tag] at same
      split at same
      · cases same
      · split at same <;> cases same
  | _ => cases same

theorem conclusive_node : node.Conclusive := by
  intro value type graph phase limit same
  cases value with
  | node id =>
      simp only [node] at same
      split at same
      · cases same
      · split at same <;> cases same
  | _ => cases same

mutual
theorem conclusive_encodeAny (graph : Graph) : (value : Value) →
    LifecycleGraph.Conclusive (encodeAny graph value)
  | .null => conclusive_ok _
  | .text _ => conclusive_ok _
  | .integer _ => conclusive_ok _
  | .number content => conclusive_finite content
  | .boolean _ => conclusive_ok _
  | .tag id => conclusive_tag (.tag id) (.tag none) graph
  | .node id => conclusive_node (.node id) (.node none) graph
  | .list items => (conclusive_encodeAnyItems graph items).map

theorem conclusive_encodeAnyItems (graph : Graph) : (items : List Value) →
    LifecycleGraph.Conclusive (encodeAnyItems graph items)
  | [] => conclusive_ok _
  | item :: rest =>
      (conclusive_encodeAny graph item).bind fun _ =>
        (conclusive_encodeAnyItems graph rest).bind fun _ => conclusive_ok _
end

theorem conclusive_any : any.Conclusive := fun value _ graph => conclusive_encodeAny graph value

end Converter

namespace Converters

theorem conclusive_builtIn : builtIn.Conclusive :=
  all_builtIn Converter.conclusive_text Converter.conclusive_number Converter.conclusive_integer
    Converter.conclusive_boolean Converter.conclusive_tag Converter.conclusive_node

theorem Conclusive.converterFor {converters : Converters} (conclusive : converters.Conclusive)
    (type : DataType) : LifecycleGraph.Conclusive (converters.converterFor type) ∧
      ∀ converter, converters.converterFor type = .ok converter → converter.Conclusive := by
  refine ⟨fun phase limit same => ?_, fun converter found =>
    All.of_converterFor conclusive Converter.conclusive_any found⟩
  rw [Converters.converterFor] at same
  split at same
  · cases same
  · split at same <;> cases same

end Converters

/-! ## Dumps -/

namespace Repository

variable {repository : Repository} (conclusive : repository.converters.Conclusive)

theorem conclusive_encodeItems {converter : Converter} (conclusive : converter.Conclusive)
    (type : DataType) (items : List Value) :
    Conclusive (repository.encodeItems converter type items) := by
  induction items with
  | nil => exact conclusive_ok _
  | cons item rest inductionHypothesis =>
      exact (conclusive item type repository.graph).bind fun _ =>
        inductionHypothesis.bind fun _ => conclusive_ok _

include conclusive

theorem conclusive_encodeValue (property : Property) (value : Value) :
    Conclusive (repository.encodeValue property value) := by
  obtain ⟨asked, answers⟩ := conclusive.converterFor property.dataType
  rw [encodeValue]
  cases found : repository.converters.converterFor property.dataType with
  | error fault =>
      rw [found] at asked
      exact asked.error
  | ok converter =>
      rw [ok_bind]
      have single (item : Value) := answers converter found item property.dataType repository.graph
      cases value with
      | null => exact conclusive_ok _
      | list items =>
          simp only
          split
          · exact (conclusive_encodeItems (answers converter found) property.dataType items).map
          · exact single _
      | _ => exact single _

theorem conclusive_dumpProperties (node : Node) (properties : List Property) :
    Conclusive (repository.dumpProperties node properties) := by
  induction properties with
  | nil => exact conclusive_ok _
  | cons property rest inductionHypothesis =>
      rw [dumpProperties]
      split
      · exact inductionHypothesis
      · exact (conclusive_encodeValue conclusive property _).bind fun _ =>
          inductionHypothesis.bind fun _ => conclusive_ok _

theorem conclusive_dumpNode (id : NodeId) : Conclusive (repository.dumpNode id) := by
  rw [dumpNode]
  refine Conclusive.bind ?_ fun node =>
    (conclusive_dumpProperties conclusive node _).bind fun _ => conclusive_ok _
  intro phase limit same
  rw [Graph.nodeOrFault] at same
  split at same <;> cases same

theorem conclusive_savedNodes (nodes : List NodeId) :
    Conclusive (Engine.savedNodes repository nodes) := by
  induction nodes with
  | nil => exact conclusive_ok _
  | cons id rest inductionHypothesis =>
      rw [Engine.savedNodes]
      split
      · exact inductionHypothesis
      · exact (conclusive_dumpNode conclusive id).bind fun _ =>
          inductionHypothesis.bind fun _ => conclusive_ok _

end Repository

end LifecycleGraph
