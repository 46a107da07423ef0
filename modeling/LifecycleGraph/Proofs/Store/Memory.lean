import Mathlib.Data.Finmap
import LifecycleGraph.Proofs.Collection
import LifecycleGraph.Proofs.Text.Parts
import LifecycleGraph.Store.Memory

/-!
# The store in memory as a map

The store keeps nodes under one text for the type and the name.  Names without a colon are what
follows the last colon of that text, so the store answers as a finite map from types and names
does, through any calls.
-/

set_option autoImplicit false

namespace LifecycleGraph

/-! ## Texts of types and names -/

namespace SavedNode

/-- The type and the name of a saved node. -/
def pair (saved : SavedNode) : String × String := (saved.type, saved.name)

/-- No colon is in the name. -/
def Plain (saved : SavedNode) : Prop := ':' ∉ saved.name.toList

instance (saved : SavedNode) : Decidable saved.Plain :=
  inferInstanceAs (Decidable (':' ∉ saved.name.toList))

theorem toList_keyOf (type name : String) :
    (keyOf type name).toList = type.toList ++ ':' :: name.toList := by
  simp [keyOf]

/-- Read backwards, a key is cut at its first colon; the name has none, the type may have some. -/
theorem splitOnce?_reverse_keyOf (type : String) {name : String} (plain : ':' ∉ name.toList) :
    Text.splitOnce? ':' (keyOf type name).toList.reverse =
      some (name.toList.reverse, type.toList.reverse) := by
  have reversed : (keyOf type name).toList.reverse =
      name.toList.reverse ++ ':' :: type.toList.reverse := by
    simp [toList_keyOf]
  rw [reversed]
  exact Text.splitOnce?_append (by simpa using plain) _

theorem keyOf_inj {type other name another : String} (plain : ':' ∉ name.toList)
    (anotherPlain : ':' ∉ another.toList) :
    keyOf type name = keyOf other another ↔ (type, name) = (other, another) := by
  constructor
  · intro same
    have cut := (splitOnce?_reverse_keyOf type plain).symm
    rw [same, splitOnce?_reverse_keyOf other anotherPlain] at cut
    obtain ⟨names, types⟩ := Prod.mk.inj (Option.some.inj cut)
    rw [List.reverse_inj, String.toList_inj] at names types
    rw [names, types]
  · intro same
    obtain ⟨types, names⟩ := Prod.mk.inj same
    rw [types, names]

end SavedNode

/-! ## Calls -/

/-- What a store is asked for. -/
inductive StoreCall where
  | save (nodes : List SavedNode)
  | load (type name : String)
  | delete (type name : String)
  | list

/-- What a store answers. -/
inductive StoreAnswer where
  | saved
  | loaded (node : Option SavedNode)
  | deleted (found : Bool)
  | listed (nodes : List SavedNode)

/-- A node that comes into a store, or one that goes. -/
inductive StoreChange where
  | put (node : SavedNode)
  | drop (type name : String)

namespace StoreChange

/-- The type and the name that are concerned. -/
def pair : StoreChange → String × String
  | put node => node.pair
  | drop type name => (type, name)

/-- The node that is there afterwards. -/
def node? : StoreChange → Option SavedNode
  | put node => some node
  | drop _ _ => none

/-- The changes leave the node as what was put last for its type and name. -/
def LastPut (changes : List StoreChange) (node : SavedNode) : Prop :=
  ∃ later, LastAmong (fun change => change.pair ≠ node.pair) changes (put node) later

end StoreChange

namespace StoreCall

/-- Every node that is named has no colon in its name. -/
def Plain : StoreCall → Prop
  | save nodes => ∀ node ∈ nodes, node.Plain
  | load _ name => ':' ∉ name.toList
  | delete _ name => ':' ∉ name.toList
  | list => True

def changes : StoreCall → List StoreChange
  | save nodes => nodes.map .put
  | delete type name => [.drop type name]
  | load _ _ => []
  | list => []

end StoreCall

namespace MemoryStore

def call (store : MemoryStore) : StoreCall → StoreAnswer × MemoryStore
  | .save nodes => (.saved, store.save nodes)
  | .load type name => (.loaded (store.load? type name), store)
  | .delete type name => let (found, rest) := store.delete type name; (.deleted found, rest)
  | .list => (.listed store.list, store)

/-- The answers to calls, one after the other, and the store that is left. -/
def run (store : MemoryStore) : List StoreCall → List StoreAnswer × MemoryStore
  | [] => ([], store)
  | call :: calls =>
      let (answer, next) := store.call call
      let (answers, last) := next.run calls
      (answer :: answers, last)

end MemoryStore

/-- Nodes by their types and names. -/
abbrev NodeMap : Type := Finmap fun _ : String × String => SavedNode

namespace NodeMap

def change (map : NodeMap) : StoreChange → NodeMap
  | .put node => map.insert node.pair node
  | .drop type name => map.erase (type, name)

def changeAll (map : NodeMap) (changes : List StoreChange) : NodeMap := changes.foldl change map

/-- The answers that a map gives to a call.  A list has each node of the map once, in any order. -/
def Answers (map : NodeMap) : StoreCall → StoreAnswer → Prop
  | .save _, .saved => True
  | .load type name, .loaded node => node = map.lookup (type, name)
  | .delete type name, .deleted found => found = decide ((type, name) ∈ map)
  | .list, .listed nodes =>
      (nodes.map SavedNode.pair).Nodup ∧ nodes.length = map.keys.card ∧
        ∀ node, node ∈ nodes ↔ map.lookup node.pair = some node
  | _, _ => False

/-- The answers that a map gives to calls, each changing it for the later ones. -/
def AnswersAll (map : NodeMap) : List StoreCall → List StoreAnswer → Prop
  | [], [] => True
  | call :: calls, answer :: answers =>
      map.Answers call answer ∧ (map.changeAll call.changes).AnswersAll calls answers
  | _, _ => False

theorem lookup_change (map : NodeMap) (change : StoreChange) (pair : String × String) :
    (map.change change).lookup pair =
      if change.pair = pair then change.node? else map.lookup pair := by
  by_cases same : change.pair = pair
  · subst same
    cases change <;> simp [NodeMap.change, StoreChange.pair, StoreChange.node?]
  · rw [if_neg same]
    cases change with
    | put node => exact Finmap.lookup_insert_of_ne map (Ne.symm same)
    | drop type name => exact Finmap.lookup_erase_ne (Ne.symm same)

end NodeMap

namespace StoreChange

theorem not_lastPut_nil (node : SavedNode) : ¬LastPut [] node :=
  fun ⟨_, last⟩ => not_lastAmong_nil _ _ last

theorem lastPut_concat_iff (changes : List StoreChange) (last : StoreChange) (node : SavedNode) :
    LastPut (changes ++ [last]) node ↔
      last = .put node ∨ last.pair ≠ node.pair ∧ LastPut changes node := by
  simp only [LastPut, lastAmong_concat_iff]
  constructor
  · rintro ⟨later, ⟨same, -⟩ | ⟨others, -, different, earlier⟩⟩
    · exact .inl same
    · exact .inr ⟨different, others, earlier⟩
  · rintro (same | ⟨different, others, earlier⟩)
    · exact ⟨[], .inl ⟨same, rfl⟩⟩
    · exact ⟨others ++ [last], .inr ⟨others, rfl, different, earlier⟩⟩

end StoreChange

/-- A map has what was put last and not dropped since. -/
theorem NodeMap.lookup_changeAll_empty_iff (changes : List StoreChange) (node : SavedNode)
    (pair : String × String) :
    (changeAll ∅ changes).lookup pair = some node ↔
      node.pair = pair ∧ StoreChange.LastPut changes node := by
  induction changes using List.reverseRecOn with
  | nil => simp [changeAll, StoreChange.not_lastPut_nil]
  | append_singleton changes last inductionHypothesis =>
      rw [changeAll, List.foldl_concat, ← changeAll, lookup_change,
        StoreChange.lastPut_concat_iff]
      by_cases here : last.pair = pair
      · subst here
        rw [if_pos rfl]
        constructor
        · intro isNode
          cases last with
          | put other =>
              obtain rfl := Option.some.inj isNode
              exact ⟨rfl, .inl rfl⟩
          | drop type name => cases isNode
        · rintro ⟨same, rfl | ⟨different, -⟩⟩
          · rfl
          · exact absurd same.symm different
      · rw [if_neg here, inductionHypothesis]
        refine and_congr_right fun same => ⟨fun earlier => .inr ⟨same ▸ here, earlier⟩, ?_⟩
        rintro (rfl | ⟨-, earlier⟩)
        · exact absurd same here
        · exact earlier

/-! ## Tables that hold a map -/

/-- A table holds the nodes of a map, each under its own key. -/
structure HoldsMap (nodes : Table String SavedNode) (map : NodeMap) : Prop where
  sorted : nodes.Sorted
  keyed : ∀ key node, nodes.find? key = some node → node.key = key ∧ node.Plain
  found : ∀ type name, ':' ∉ name.toList →
    nodes.find? (SavedNode.keyOf type name) = map.lookup (type, name)
  named : ∀ pair ∈ map, ':' ∉ pair.2.toList

namespace HoldsMap

variable {nodes : Table String SavedNode} {map : NodeMap}

theorem empty : HoldsMap .empty ∅ where
  sorted := Table.sorted_empty
  keyed _ _ found := by cases found
  found _ _ _ := rfl
  named _ member := absurd member Finmap.notMem_empty

theorem put (holds : HoldsMap nodes map) {node : SavedNode} (plain : node.Plain) :
    HoldsMap (nodes.insert node.key node) (map.change (.put node)) where
  sorted := holds.sorted.insert _ _
  keyed key other found := by
    rw [Table.find?_insert] at found
    split at found
    · rename_i same
      obtain rfl := Option.some.inj found
      exact ⟨same, plain⟩
    · exact holds.keyed key other found
  found type name isPlain := by
    have keys : node.key = SavedNode.keyOf type name ↔ node.pair = (type, name) :=
      SavedNode.keyOf_inj plain isPlain
    rw [Table.find?_insert, NodeMap.lookup_change, holds.found type name isPlain]
    exact if_congr keys rfl rfl
  named pair member := by
    rcases Finmap.mem_insert.mp member with rfl | member
    · exact plain
    · exact holds.named pair member

theorem drop (holds : HoldsMap nodes map) (type : String) {name : String}
    (plain : ':' ∉ name.toList) :
    HoldsMap (nodes.erase (SavedNode.keyOf type name)) (map.change (.drop type name)) where
  sorted := holds.sorted.erase _
  keyed key other found := by
    rw [Table.find?_erase] at found
    split at found
    · cases found
    · exact holds.keyed key other found
  found other another isPlain := by
    rw [Table.find?_erase, NodeMap.lookup_change, holds.found other another isPlain]
    exact if_congr (SavedNode.keyOf_inj plain isPlain) rfl rfl
  named pair member := holds.named pair (Finmap.mem_erase.mp member).2

theorem putAll (holds : HoldsMap nodes map) {saved : List SavedNode}
    (plain : ∀ node ∈ saved, node.Plain) :
    HoldsMap (saved.foldl (fun table saved => table.insert saved.key saved) nodes)
      (map.changeAll (saved.map .put)) := by
  induction saved generalizing nodes map with
  | nil => exact holds
  | cons node rest inductionHypothesis =>
      obtain ⟨here, others⟩ := List.forall_mem_cons.mp plain
      exact inductionHypothesis (holds.put here) others

theorem contains_eq (holds : HoldsMap nodes map) (type : String) {name : String}
    (plain : ':' ∉ name.toList) :
    nodes.contains (SavedNode.keyOf type name) = decide ((type, name) ∈ map) := by
  rw [Table.contains, holds.found type name plain, Bool.eq_iff_iff, decide_eq_true_iff,
    Finmap.lookup_isSome]

theorem mem_values_iff (holds : HoldsMap nodes map) (node : SavedNode) :
    node ∈ nodes.values ↔ map.lookup node.pair = some node := by
  constructor
  · intro member
    obtain ⟨⟨key, node⟩, isEntry, rfl⟩ := List.mem_map.mp member
    have found := (holds.sorted.mem_entries_iff key _).mp isEntry
    obtain ⟨rfl, plain⟩ := holds.keyed key _ found
    exact (holds.found _ _ plain).symm.trans found
  · intro found
    have plain := holds.named _ (Finmap.mem_of_lookup_eq_some found)
    have isEntry := (holds.sorted.mem_entries_iff node.key node).mpr
      ((holds.found node.type node.name plain).trans found)
    exact List.mem_map.mpr ⟨_, isEntry, rfl⟩

theorem nodup_pairs (holds : HoldsMap nodes map) : (nodes.values.map SavedNode.pair).Nodup := by
  have keys : nodes.entries.map Prod.fst = nodes.entries.map fun entry => entry.2.key := by
    refine List.map_congr_left fun entry member => ?_
    exact (holds.keyed _ _ ((holds.sorted.mem_entries_iff entry.1 entry.2).mp member)).1.symm
  have distinct := holds.sorted.nodup_keys
  rw [keys] at distinct
  rw [Table.values, List.map_map]
  refine List.pairwise_map.mpr (List.Pairwise.imp (fun different same => ?_)
    (List.pairwise_map.mp distinct))
  obtain ⟨types, names⟩ := Prod.mk.inj same
  exact different (congrArg₂ SavedNode.keyOf types names)

theorem length_values (holds : HoldsMap nodes map) : nodes.values.length = map.keys.card := by
  have pairs : (nodes.values.map SavedNode.pair).toFinset = map.keys := by
    ext pair
    rw [List.mem_toFinset, Finmap.mem_keys, Finmap.mem_iff]
    constructor
    · intro member
      obtain ⟨node, isValue, rfl⟩ := List.mem_map.mp member
      exact ⟨node, (holds.mem_values_iff node).mp isValue⟩
    · rintro ⟨node, found⟩
      have plain := holds.named pair (Finmap.mem_of_lookup_eq_some found)
      obtain ⟨same, isPlain⟩ := holds.keyed _ _ ((holds.found _ _ plain).trans found)
      have isPair : node.pair = pair := (SavedNode.keyOf_inj isPlain plain).mp same
      rw [← isPair] at found ⊢
      exact List.mem_map_of_mem ((holds.mem_values_iff node).mpr found)
  rw [← pairs, List.toFinset_card_of_nodup holds.nodup_pairs, List.length_map]

end HoldsMap

/-! ## Runs -/

namespace MemoryStore

variable {store : MemoryStore} {map : NodeMap}

/-- Each call is answered as the map answers it, and leaves the store with the map. -/
theorem answers_call (holds : HoldsMap store.nodes map) {call : StoreCall} (plain : call.Plain) :
    map.Answers call (store.call call).1 ∧
      HoldsMap (store.call call).2.nodes (map.changeAll call.changes) := by
  cases call with
  | save nodes => exact ⟨trivial, holds.putAll plain⟩
  | load type name => exact ⟨holds.found type name plain, holds⟩
  | delete type name => exact ⟨holds.contains_eq type plain, holds.drop type plain⟩
  | list => exact ⟨⟨holds.nodup_pairs, holds.length_values, holds.mem_values_iff⟩, holds⟩

theorem answers_run (holds : HoldsMap store.nodes map) {calls : List StoreCall}
    (plain : ∀ call ∈ calls, call.Plain) :
    map.AnswersAll calls (store.run calls).1 ∧
      HoldsMap (store.run calls).2.nodes (map.changeAll (calls.flatMap StoreCall.changes)) := by
  induction calls generalizing store map with
  | nil => exact ⟨trivial, holds⟩
  | cons call calls inductionHypothesis =>
      obtain ⟨here, others⟩ := List.forall_mem_cons.mp plain
      obtain ⟨answer, next⟩ := answers_call holds here
      obtain ⟨answers, last⟩ := inductionHypothesis next others
      rw [List.flatMap_cons, NodeMap.changeAll, List.foldl_append]
      exact ⟨⟨answer, answers⟩, last⟩

/-- A store is a finite map from types and names without a colon, whatever the types are: through
any calls it answers as the map does, finds what was saved last and not deleted since, and has as
many nodes as the map. -/
theorem calls_answered (calls : List StoreCall) (plain : ∀ call ∈ calls, call.Plain) :
    let changes := calls.flatMap StoreCall.changes
    let map := NodeMap.changeAll ∅ changes
    let (answers, store) := empty.run calls
    NodeMap.AnswersAll ∅ calls answers ∧
      (∀ type name node, ':' ∉ name.toList → (store.load? type name = some node ↔
        node.pair = (type, name) ∧ StoreChange.LastPut changes node)) ∧
      store.size = map.keys.card := by
  have holds : HoldsMap empty.nodes ∅ := .empty
  obtain ⟨answers, last⟩ := answers_run holds plain
  refine ⟨answers, fun type name node isPlain => ?_, ?_⟩
  · rw [load?, last.found type name isPlain, NodeMap.lookup_changeAll_empty_iff]
  · rw [← last.length_values, Table.values, List.length_map]
    rfl

/-- A node with nothing but a description. -/
def described (type name description : String) : SavedNode :=
  ⟨type, name, { NodeContent.blank with description := description }⟩

/-- Types and names that share a text, a batch that saves a node twice, and a node that goes. -/
def sharing : List StoreCall :=
  [.save [described "job" "a" "first", described "job:a" "a" "other", described "job" "a" "second"],
    .load "job" "a", .delete "job:a" "a", .delete "job:a" "a", .load "job:a" "a", .list]

theorem calls_answered_sharing :
    (∀ call ∈ sharing, call.Plain) ∧
      NodeMap.AnswersAll ∅ sharing
        [.saved, .loaded (some (described "job" "a" "second")), .deleted true, .deleted false,
          .loaded none, .listed [described "job" "a" "second"]] := by
  have plain : ∀ call ∈ sharing, call.Plain := by
    simp [sharing, StoreCall.Plain, described, SavedNode.Plain]
  have answers : (empty.run sharing).1 =
      [.saved, .loaded (some (described "job" "a" "second")), .deleted true, .deleted false,
        .loaded none, .listed [described "job" "a" "second"]] := by
    rfl
  exact ⟨plain, answers ▸ (calls_answered sharing plain).1⟩

end MemoryStore

end LifecycleGraph
