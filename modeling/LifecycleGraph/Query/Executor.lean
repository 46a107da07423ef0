import LifecycleGraph.Collection.Distinct
import LifecycleGraph.Collection.Sorted
import LifecycleGraph.Collection.Total
import LifecycleGraph.Handle

/-!
# Executors

An executor tests nodes, and may enumerate those that pass.  It estimates how
many there are; one that cannot enumerate has no bound.  Each test and each
visit of an enumeration reports the events on its way, so that it can be seen
which tests were made.  A conjunction is planned: it enumerates the operand with
the least estimate and tests the others, the smaller ones first.
-/

set_option autoImplicit false

namespace LifecycleGraph

structure Traced (ε α : Type) where
  events : List ε
  value : α

/-- The estimate of an executor without a bound, the greatest number of
sixty-four bits. -/
def unbounded : Nat := 0xFFFFFFFFFFFFFFFF

structure Executor (ε : Type) where
  test : NodeId → Traced ε Bool
  iterable : Bool
  size : Nat
  /-- The enumeration: each visit finds a node, or passes one by. -/
  visits : List (Traced ε (Option NodeId))

namespace Executor

variable {ε : Type}

def accepts (executor : Executor ε) (id : NodeId) : Bool := (executor.test id).value

def items (executor : Executor ε) : List NodeId := executor.visits.filterMap Traced.value

def enumerationEvents (executor : Executor ε) : List ε := executor.visits.flatMap Traced.events

def isEmpty (executor : Executor ε) : Bool := executor.size == 0

/-- An executor without operands, which enumerates. -/
def enumerated (test : NodeId → Traced ε Bool) (size : Nat) (items : List NodeId) : Executor ε :=
  ⟨test, true, size, items.map fun id => ⟨[], some id⟩⟩

def predicate (test : NodeId → Traced ε Bool) : Executor ε := ⟨test, false, unbounded, []⟩

def silent (accepts : NodeId → Bool) (id : NodeId) : Traced ε Bool := ⟨[], accepts id⟩

def nothing : Executor ε := enumerated (silent fun _ => false) 0 []

/-- Every operand accepts a node; none is tested behind one that does not. -/
def testAll : List (Executor ε) → NodeId → Traced ε Bool
  | [], _ => ⟨[], true⟩
  | operand :: rest, id =>
      let first := operand.test id
      if first.value then
        let others := testAll rest id
        ⟨first.events ++ others.events, others.value⟩
      else first

/-- Some operand accepts a node; none is tested behind one that does. -/
def testAny : List (Executor ε) → NodeId → Traced ε Bool
  | [], _ => ⟨[], false⟩
  | operand :: rest, id =>
      let first := operand.test id
      if first.value then first
      else
        let others := testAny rest id
        ⟨first.events ++ others.events, others.value⟩

/-- A visit that passes a node by unless every filter accepts it. -/
def filterVisit (filters : List (Executor ε)) (visit : Traced ε (Option NodeId)) :
    Traced ε (Option NodeId) :=
  match visit.value with
  | none => visit
  | some id =>
      let tested := testAll filters id
      ⟨visit.events ++ tested.events, if tested.value then some id else none⟩

def filtered (primary : Executor ε) (filters : List (Executor ε)) : Executor ε where
  test := testAll (primary :: filters)
  iterable := primary.iterable
  size := primary.size
  visits := primary.visits.map (filterVisit filters)

/-- Visits that pass by what was found before. -/
def passRepeats : List NodeId → List (Traced ε (Option NodeId)) →
    List (Traced ε (Option NodeId))
  | _, [] => []
  | seen, visit :: rest =>
      match visit.value with
      | none => visit :: passRepeats seen rest
      | some id =>
          if seen.contains id then ⟨visit.events, none⟩ :: passRepeats seen rest
          else visit :: passRepeats (id :: seen) rest

/-- The union of the operands; each node is found once. -/
def union (operands : List (Executor ε)) : Executor ε where
  test := testAny operands
  iterable := operands.all Executor.iterable
  size :=
    if operands.all Executor.iterable then min (total Executor.size operands) unbounded
    else unbounded
  visits := passRepeats [] (operands.flatMap Executor.visits)

def complement (inner : Executor ε) : Executor ε :=
  predicate fun id => let tested := inner.test id; ⟨tested.events, !tested.value⟩

def leastSize? (operands : List (Executor ε)) : Option Nat :=
  ((operands.filter Executor.iterable).map Executor.size).min?

/-- The place of the operand to enumerate: the first of the least size, or the
first at all where none enumerates. -/
def primaryIndex (operands : List (Executor ε)) : Nat :=
  match leastSize? operands with
  | some least =>
      (operands.findIdx? fun operand => operand.iterable && operand.size == least).getD 0
  | none => 0

/-- The conjunction of operands, planned. -/
def planned (operands : List (Executor ε)) : Executor ε :=
  match operands[primaryIndex operands]? with
  | some primary => filtered primary (sortBy size (operands.eraseIdx (primaryIndex operands)))
  | none => nothing

end Executor

end LifecycleGraph
