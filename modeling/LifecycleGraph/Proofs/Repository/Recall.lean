import LifecycleGraph.Proofs.Repository.Conversion
import LifecycleGraph.Proofs.Repository.Naming

/-!
# Nodes that are looked up again

Changes of nodes leave the declared types, the states and the tags as they are, and the handles
mean what they meant.  A name that finds a node before and after such changes finds the same one
exactly if it is still there, and a converter reads the other texts as it did.
-/

set_option autoImplicit false

namespace LifecycleGraph

namespace Graph

variable {old new : Graph}

/-- But for the nodes and their indices the second graph is the first one. -/
structure SameDeclared (old new : Graph) : Prop where
  types : new.types = old.types
  states : new.states = old.states
  tags : new.tags = old.tags

theorem SameDeclared.refl (graph : Graph) : graph.SameDeclared graph := ⟨rfl, rfl, rfl⟩

theorem indifferent_sameDeclared (start : Graph) : Indifferent start.SameDeclared where
  touch _ _ _ same := ⟨same.types, same.states, same.tags⟩
  list _ same := ⟨same.types, same.states, same.tags⟩

theorem keeps_addNode_sameDeclared (start : Graph) (type : TypeId) (name : String) :
    (addNode type name).Keeps start.SameDeclared := by
  intro graph same
  refine (leads_addNode type name graph).imp ?_ fun _ left => left ▸ same
  rintro id _ ⟨-, rfl, -⟩
  exact ⟨same.types, same.states, same.tags⟩

theorem keeps_setPropertyNamed_sameDeclared (start : Graph) (id : NodeId) (name : String)
    (value : Value) : (setPropertyNamed id name value).Keeps start.SameDeclared :=
  (Change.keeps_ask _).bind fun _ => (Change.keeps_ask _).bind fun property =>
    (indifferent_sameDeclared start).keeps_setProperty id property value

/-! ## Names of nodes -/

/-- Where a name is searched for is told by the declared types. -/
theorem exists_search (types : new.types = old.types) (name : String) (asked : Option TypeId) :
    (∃ sought among, old.nodeNamed? name asked = old.uniqueAmong sought among ∧
      new.nodeNamed? name asked = new.uniqueAmong sought among) ∨
    ∃ fault, old.nodeNamed? name asked = .error fault := by
  simp only [nodeNamed?, typeId?_of_types types, subtypes_of_types types, types]
  cases Text.cutOnce? ':' name with
  | none =>
      cases asked with
      | none => exact .inl ⟨_, _, rfl, rfl⟩
      | some type => exact .inl ⟨_, _, rfl, rfl⟩
  | some cut =>
      obtain ⟨typeName, rest⟩ := cut
      simp only
      cases old.typeId? typeName with
      | none => exact .inr ⟨_, rfl⟩
      | some type => exact .inl ⟨_, _, rfl, rfl⟩

theorem uniqueAmong_eq_ok_some_iff {graph : Graph} {name : String} {types : List TypeId}
    {id : NodeId} :
    graph.uniqueAmong name types = .ok (some id) ↔
      ∃ type, graph.namedAmong name types = [(type, id)] := by
  rw [uniqueAmong]
  split <;> simp_all

theorem nodeNamed_eq_ok_iff {graph : Graph} {name : String} {asked : Option TypeId} {id : NodeId} :
    graph.nodeNamed name asked = .ok id ↔ graph.nodeNamed? name asked = .ok (some id) := by
  rw [nodeNamed]
  split <;> simp_all

/-- A name that finds nodes before and after a change finds the same one exactly if that is still
there. -/
theorem nodeNamed_again (oldListed : old.Listed) (newListed : new.Listed)
    (types : new.types = old.types) (onwards : old.Onwards new) {name : String}
    {asked : Option TypeId} {id found : NodeId} (before : old.nodeNamed name asked = .ok id)
    (after : new.nodeNamed name asked = .ok found) : found = id ↔ new.Live id := by
  rw [nodeNamed_eq_ok_iff] at before after
  rcases exists_search types name asked with ⟨sought, among, searched, again⟩ | ⟨fault, failed⟩
  · rw [searched] at before
    rw [again] at after
    obtain ⟨type, isOnly⟩ := uniqueAmong_eq_ok_some_iff.mp before
    obtain ⟨now, isOnlyNow⟩ := uniqueAmong_eq_ok_some_iff.mp after
    obtain ⟨isAmong, entry, isEntry, isType, isName⟩ :=
      (mem_namedAmong_iff oldListed sought among type id).mp (isOnly ▸ List.mem_singleton.mpr rfl)
    constructor
    · rintro rfl
      obtain ⟨-, node, isNode, -⟩ := (mem_namedAmong_iff newListed sought among now found).mp
        (isOnlyNow ▸ List.mem_singleton.mpr rfl)
      exact Option.isSome_iff_exists.mpr ⟨node, isNode⟩
    · intro live
      obtain ⟨node, isNode⟩ := Option.isSome_iff_exists.mp live
      -- The node is the one that was there, so its type and its name are the same.
      obtain ⟨was, isWas, types, names⟩ := onwards.nodes isNode (Arena.lt_next_of_find? isEntry)
      obtain rfl := Option.some.inj (isEntry.symm.trans isWas)
      have isNamed := (mem_namedAmong_iff newListed sought among type id).mpr
        ⟨isAmong, node, isNode, types.symm.trans isType, names.symm.trans isName⟩
      rw [isOnlyNow, List.mem_singleton] at isNamed
      exact (congrArg Prod.snd isNamed).symm
  · rw [failed] at before
    cases before

end Graph

/-! ## Converters -/

/-- The converter reads names of nodes as the one for nodes does, or whatever it reads as beside
any other nodes, and then never as a node. -/
def Converter.Discerning (converter : Converter) : Prop :=
  converter.decode = Converter.node.decode ∨
    ∀ data type old new, Graph.SameDeclared old new →
      converter.decode data type new = converter.decode data type old ∧
        ∀ id, converter.decode data type old ≠ .ok (.node id)

def Converters.Discerning (converters : Converters) : Prop :=
  converters.All Converter.Discerning

namespace Converter

theorem discerning_text : text.Discerning := by
  refine .inr fun data type old new _ => ⟨rfl, fun id => ?_⟩
  simp only [text]
  split <;> simp

theorem discerning_number : number.Discerning := by
  refine .inr fun data type old new _ => ⟨rfl, fun id => ?_⟩
  simp only [number]
  repeat' split
  all_goals simp

theorem discerning_integer : integer.Discerning := by
  refine .inr fun data type old new _ => ⟨rfl, fun id => ?_⟩
  simp only [integer]
  repeat' split
  all_goals simp

theorem discerning_boolean : boolean.Discerning := by
  refine .inr fun data type old new _ => ⟨rfl, fun id => ?_⟩
  simp only [boolean]
  split <;> simp

theorem discerning_tag : tag.Discerning := by
  refine .inr fun data type old new same => ⟨?_, fun id => ?_⟩
  · simp only [tag, same.tags]
  · simp only [tag]
    repeat' split
    all_goals simp

theorem discerning_node : node.Discerning := .inl rfl

theorem discerning_any : any.Discerning := by
  refine .inr fun data type old new _ => ⟨rfl, fun id => ?_⟩
  simp only [any]
  cases data with
  | array items =>
      rw [decodeAny]
      cases decodeAnyItems items <;> simp [Except.map]
  | integer content =>
      rw [decodeAny]
      split <;> simp
  | _ => simp [decodeAny]

end Converter

theorem Converters.discerning_builtIn : Converters.builtIn.Discerning :=
  all_builtIn Converter.discerning_text Converter.discerning_number Converter.discerning_integer
    Converter.discerning_boolean Converter.discerning_tag Converter.discerning_node

/-! ## Changes of nodes -/

/-- The change is one of nodes, their values and their places, and makes or removes no tag. -/
def Mutation.OfNodes : Mutation → Prop
  | configureNode .. => False
  | removeTagTree _ => False
  | _ => True

namespace Repository

variable {old new repository : Repository}

/-- The second repository comes from the first one by changes of nodes. -/
structure Repeopled (old new : Repository) : Prop where
  converters : new.converters = old.converters
  declared : old.graph.SameDeclared new.graph
  onwards : old.graph.Onwards new.graph
  oldListed : old.graph.Listed
  newListed : new.graph.Listed

theorem Repeopled.refl (listed : old.graph.Listed) : old.Repeopled old :=
  ⟨rfl, .refl _, .refl _, listed, listed⟩

/-- What is neither of nodes nor of their indices stays as it is. -/
def SameFrame (old new : Repository) : Prop :=
  new.converters = old.converters ∧ old.graph.SameDeclared new.graph

theorem keeps_sameFrame (start : Repository) {mutation : Mutation} (ofNodes : mutation.OfNodes) :
    mutation.perform.Keeps start.SameFrame := by
  have onGraph {α : Type} {change : Change Graph α}
      (keeps : change.Keeps start.graph.SameDeclared) :
      (onGraph change).Keeps start.SameFrame :=
    Change.keeps_within fun whole frame => (keeps whole.graph frame.2).imp
      (fun _ _ same => ⟨frame.1, same⟩) fun _ same => ⟨frame.1, same⟩
  have indifferent := Graph.indifferent_sameDeclared start.graph
  cases mutation with
  | addNode type name =>
      exact (onGraph (Graph.keeps_addNode_sameDeclared start.graph type name)).answerless
  | setProperty id property value => exact onGraph (indifferent.keeps_setProperty id property value)
  | setPropertyNamed id name value =>
      exact onGraph (Graph.keeps_setPropertyNamed_sameDeclared start.graph id name value)
  | addTag id tag => exact onGraph (indifferent.keeps_addTag id tag)
  | removeTag id tag => exact (onGraph (indifferent.keeps_removeTag id tag)).answerless
  | setState id state =>
      refine onGraph (Graph.keeps_setState_of_moves (fun _ _ _ _ _ same => ?_) id state)
      exact ⟨same.types, same.states, same.tags⟩
  | removeNode id =>
      refine onGraph (indifferent.keeps_removeNode (fun _ same => ?_) id)
      exact ⟨same.types, same.states, same.tags⟩
  | configureNode => exact ofNodes.elim
  | removeTagTree => exact ofNodes.elim

theorem repeopled_run (reachable : Reachable repository) {mutations : List Mutation}
    (ofNodes : ∀ mutation ∈ mutations, mutation.OfNodes) :
    repository.Repeopled (Operation.run (mutations.map .mutate) repository) := by
  have none : ∀ operation ∈ mutations.map Operation.mutate, ¬ operation.Configures := by
    simp [Operation.Configures]
  have frame : repository.SameFrame (Operation.run (mutations.map .mutate) repository) := by
    suffices kept : ∀ state, repository.SameFrame state →
        repository.SameFrame (Operation.run (mutations.map .mutate) state) from
      kept repository ⟨rfl, .refl _⟩
    clear none
    induction mutations with
    | nil => exact fun _ => id
    | cons mutation rest inductionHypothesis =>
        intro state kept
        have ofNode := ofNodes mutation (List.mem_cons_self ..)
        have step := keeps_sameFrame repository ofNode state kept
        exact inductionHypothesis
          (fun other member => ofNodes other (List.mem_cons_of_mem _ member)) _ step.state_apply
  have listed : repository.graph.Listed := Reached.listed reachable
  have further : Reachable (Operation.run (mutations.map .mutate) repository) :=
    Reached.run reachable (allAllowed_of_all (fun _ _ => trivial) _ _)
  exact ⟨frame.1, frame.2, onwards_run listed none, listed, Reached.listed further⟩

/-! ## Data that is read again -/

/-- What is read before and after changes of nodes is the same value exactly if that is no node,
or one that is still there. -/
theorem Repeopled.decode_again (repeopled : old.Repeopled new) {converter : Converter}
    (discerning : converter.Discerning) {data : Json} {type : DataType} {value read : Value}
    (before : converter.decode data type old.graph = .ok value)
    (after : converter.decode data type new.graph = .ok read) :
    read = value ↔ ∀ id, value.node? = some id → new.graph.Live id := by
  rcases discerning with byName | blind
  · rw [byName] at before after
    simp only [Converter.node] at before after
    cases isName : Converter.textOf? data with
    | none =>
        rw [isName] at before
        cases before
    | some name =>
        rw [isName] at before after
        obtain ⟨id, found, rfl⟩ := exists_of_map_eq_ok before
        obtain ⟨now, foundNow, rfl⟩ := exists_of_map_eq_ok after
        have same := Graph.nodeNamed_again repeopled.oldListed repeopled.newListed
          repeopled.declared.types repeopled.onwards found foundNow
        simpa [Value.node?] using same
  · obtain ⟨alike, noNode⟩ := blind data type _ _ repeopled.declared
    rw [alike, before] at after
    refine iff_of_true (Except.ok.inj after).symm fun id isNode => ?_
    cases value with
    | node other => exact absurd before (noNode other)
    | _ => cases isNode

theorem Repeopled.decodeText_again (repeopled : old.Repeopled new)
    (discerning : old.converters.Discerning) {text : String} {type : DataType}
    {value read : Value} (before : old.decodeText text type = .ok value)
    (after : new.decodeText text type = .ok read) :
    read = value ↔ ∀ id, value.node? = some id → new.graph.Live id := by
  obtain ⟨converter, isConverter, before⟩ := exists_of_bind_eq_ok before
  obtain ⟨again, isAgain, after⟩ := exists_of_bind_eq_ok after
  rw [repeopled.converters] at isAgain
  obtain rfl := Except.ok.inj (isConverter.symm.trans isAgain)
  exact repeopled.decode_again
    (discerning.of_converterFor Converter.discerning_any isConverter) before after

end Repository

end LifecycleGraph
