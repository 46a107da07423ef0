import LifecycleGraph.Proofs.Repository.Reference
import LifecycleGraph.Proofs.Repository.Rereading

/-!
# Plain values

A plain value says nothing about the graph: at any depth there is no tag and no node in it, and
no number without a written form.  What a property of a primitive type or of any values holds can
always be written if it is plain, and is read again as the same value, nested lists and nulls
included, whatever became of the graph.  The converters of the primitive types may be replaced,
but stay what they are in all other operations.
-/

set_option autoImplicit false

namespace LifecycleGraph

namespace Value

mutual
/-- At no depth there is a tag, a node or a number without a written form. -/
def isPlain : Value → Bool
  | .tag _ => false
  | .node _ => false
  | .number content => !(content.isNaN || content.isInf)
  | .list items => arePlain items
  | _ => true

def arePlain : List Value → Bool
  | [] => true
  | item :: rest => isPlain item && arePlain rest
end

theorem arePlain_iff (items : List Value) :
    arePlain items = true ↔ ∀ item ∈ items, item.isPlain = true := by
  induction items with
  | nil => simp [arePlain]
  | cons item rest inductionHypothesis => simp [arePlain, inductionHypothesis]

theorem isPlain_of_mem_items {value item : Value} (plain : value.isPlain = true)
    (member : item ∈ value.items) : item.isPlain = true := by
  cases value with
  | null => cases member
  | list items => exact (arePlain_iff items).mp plain item member
  | _ =>
      obtain rfl := List.mem_singleton.mp member
      exact plain

end Value

/-- A primitive type, or that of any values. -/
def DataType.isPlain : DataType → Bool
  | primitive _ => true
  | any => true
  | _ => false

namespace Graph

variable {graph : Graph} {declared : Property}

/-- Whether a property of such a type accepts a value does not depend on the graph. -/
theorem Validated.of_isPlain {given held : Value} (ofPlain : declared.dataType.isPlain = true)
    (validated : graph.Validated declared given held) (other : Graph) :
    other.Validated declared given held := by
  refine validated.of_admits (fun _ _ isType => ?_) fun _ _ isType => ?_
  · rw [isType] at ofPlain
    cases ofPlain
  · rw [isType] at ofPlain
    cases ofPlain

/-- A property of such a type holds what the check makes of a value that is given, unless
nothing is left of it. -/
theorem leads_setProperty_plain (ofPlain : declared.dataType.isPlain = true)
    {property : PropertyId} (isDeclared : graph.property? property = some declared) (id : NodeId)
    (given : Value) :
    (setProperty id property given).Leads graph
      (fun _ changed => ∃ value, graph.validate declared given = .ok value ∧
        changed.valueAt? id property = if value.items.isEmpty then none else some value)
      (fun _ => True) := by
  have alone : declared.isNode = false ∧ declared.isTag = false := by
    rw [Property.isNode, Property.isTag]
    cases isType : declared.dataType <;> rw [isType] at ofPlain <;> cases ofPlain <;>
      exact ⟨rfl, rfl⟩
  rw [setProperty_eq]
  refine Change.leads_ask_bind (fun answer isAnswer => ?_) fun _ _ => trivial
  obtain ⟨other, node⟩ := answer
  obtain ⟨isOther, found, -⟩ := (declaration_eq_ok_iff node).mp isAnswer
  obtain rfl := Option.some.inj (isDeclared.symm.trans isOther)
  refine Change.leads_ask_bind (fun value isValue => ?_) fun _ _ => trivial
  simp only [follow, alone, Bool.false_eq_true, if_false]
  refine Change.leads_bind (fun _ mid => mid = graph) (Change.leads_pure rfl) ?_
  rintro _ mid rfl
  refine Change.leads_modify ⟨value, isValue, ?_⟩
  rw [valueAt?, node?_adjustHold, found, Option.map_some, Option.bind_some, if_pos rfl,
    Node.value?, find?_hold, if_pos rfl]

end Graph

/-! ## Converters of plain values -/

namespace Converter

variable {kind : Primitive} {converter : Converter}

mutual
/-- A plain value can be written, and no name takes the place of anything in it. -/
theorem exists_encodeAny (graph : Graph) : (value : Value) → value.isPlain = true →
    (∃ data, encodeAny graph value = .ok data) ∧ spelled graph value = value
  | .null, _ => ⟨⟨_, rfl⟩, rfl⟩
  | .text _, _ => ⟨⟨_, rfl⟩, rfl⟩
  | .boolean _, _ => ⟨⟨_, rfl⟩, rfl⟩
  | .integer _, _ => ⟨⟨_, rfl⟩, rfl⟩
  | .number _, plain => ⟨⟨_, if_neg (by simpa [Value.isPlain] using plain)⟩, rfl⟩
  | .list items, plain => by
      obtain ⟨⟨datas, areDatas⟩, same⟩ := exists_encodeAnyItems graph items plain
      exact ⟨⟨.array datas, congrArg (Except.map Json.array) areDatas⟩, congrArg Value.list same⟩

theorem exists_encodeAnyItems (graph : Graph) : (items : List Value) →
    Value.arePlain items = true →
      (∃ datas, encodeAnyItems graph items = .ok datas) ∧ spelledItems graph items = items
  | [], _ => ⟨⟨_, rfl⟩, rfl⟩
  | item :: rest, plain => by
      obtain ⟨here, others⟩ := Bool.and_eq_true_iff.mp plain
      obtain ⟨⟨first, isFirst⟩, same⟩ := exists_encodeAny graph item here
      obtain ⟨⟨datas, areDatas⟩, sameRest⟩ := exists_encodeAnyItems graph rest others
      refine ⟨⟨first :: datas, ?_⟩, congrArg₂ List.cons same sameRest⟩
      rw [encodeAnyItems, isFirst, areDatas]
      rfl
end

/-- A converter keeps its contract for a primitive type: it accepts the plain values of the
type, and reads back what it writes for them. -/
def Faithful (kind : Primitive) (converter : Converter) : Prop :=
  ∀ graph value, Graph.fit? graph (.primitive kind) value = some value → value.isPlain = true →
    (∃ data, converter.encode value (.primitive kind) graph = .ok data) ∧
      converter.ReadsBack (.primitive kind) graph value

theorem faithful_of_builtIn? (builtIn : builtIn? (.primitive kind) = some converter) :
    converter.Faithful kind := by
  intro graph value fits plain
  refine ⟨?_, readsBack_primitive builtIn fits⟩
  cases value with
  | number content =>
      cases kind <;> cases builtIn <;> cases fits
      exact ⟨_, if_neg (by simpa [Value.isPlain] using plain)⟩
  | _ => cases kind <;> cases builtIn <;> cases fits <;> exact ⟨_, rfl⟩

end Converter

namespace Converters

variable {converters : Converters}

/-- Each primitive type has the converter that is built in, or another one that keeps its
contract. -/
def Faithful (converters : Converters) : Prop :=
  ∀ kind, ∃ converter, converters.converterFor (.primitive kind) = .ok converter ∧
    (Converter.builtIn? (.primitive kind) = some converter ∨ converter.Faithful kind)

theorem faithful_builtIn : builtIn.Faithful := by
  intro kind
  cases kind <;> exact ⟨_, rfl, .inl rfl⟩

theorem Faithful.register (faithful : converters.Faithful) {name : String} {converter : Converter}
    (also : ∀ kind : Primitive, kind.name = name → converter.Faithful kind) :
    (converters.register name converter).Faithful := by
  intro kind
  obtain ⟨before, isBefore, contract⟩ := faithful kind
  by_cases same : name = kind.name
  · refine ⟨converter, ?_, .inr (also kind same.symm)⟩
    simp [converterFor, DataType.converterName?, Converters.register, Table.find?_insert, same]
  · refine ⟨before, ?_, contract⟩
    simpa [converterFor, DataType.converterName?, Converters.register, Table.find?_insert, same]
      using isBefore

end Converters

/-! ## Converters through operations -/

/-- A converter that is registered under the name of a primitive type keeps its contract. -/
def Operation.Faithful : Operation → Prop
  | registerConverter name converter =>
      ∀ kind : Primitive, kind.name = name → converter.Faithful kind
  | _ => True

namespace Repository

variable {repository : Repository} {kept : Converters → Prop}

/-- The converters are of a kind. -/
def OfConverters (kept : Converters → Prop) (repository : Repository) : Prop :=
  kept repository.converters

theorem keeps_onGraph_converters {α : Type} (change : Change Graph α) :
    (onGraph change).Keeps (OfConverters kept) :=
  Change.keeps_within fun _ isKept => by
    unfold Change.Leads
    split <;> exact isKept

theorem keeps_configureNode_converters (id : NodeId) (content : NodeContent) :
    (configureNode id content).Keeps (OfConverters kept) :=
  (Change.keeps_ask _).bind fun _ => keeps_onGraph_converters _

theorem keeps_defineType_converters (name : String) (declaration : TypeDeclaration) :
    (defineType name declaration).Keeps (OfConverters kept) :=
  (keeps_onGraph_converters _).bind fun _ => (Change.keeps_ask _).bind fun _ =>
    (Change.keeps_ask _).bind fun _ => (keeps_onGraph_converters _).bind fun _ =>
      Change.keeps_pure _

theorem keeps_defineState_converters (name : String) (declaration : StateDeclaration) :
    (defineState name declaration).Keeps (OfConverters kept) :=
  (keeps_onGraph_converters _).bind fun _ => (Change.keeps_ask _).bind fun _ =>
    (Change.keeps_ask _).bind fun _ => (Change.keeps_ask _).bind fun _ =>
      (keeps_onGraph_converters _).bind fun _ => Change.keeps_pure _

theorem converters_of_refresh {refreshed : Repository}
    (isRefreshed : repository.refresh = .ok refreshed) :
    refreshed.converters = repository.converters := by
  obtain ⟨states, -, isRefreshed⟩ := exists_of_bind_eq_ok isRefreshed
  obtain ⟨expressions, -, same⟩ := exists_of_bind_eq_ok isRefreshed
  cases same
  rfl

theorem keeps_mutation_converters (mutation : Mutation) :
    mutation.perform.Keeps (OfConverters kept) := by
  cases mutation with
  | configureNode id content => exact keeps_configureNode_converters id content
  | addNode => exact (keeps_onGraph_converters _).answerless
  | removeTag => exact (keeps_onGraph_converters _).answerless
  | removeTagTree => exact (keeps_onGraph_converters _).answerless
  | _ => exact keeps_onGraph_converters _

/-- Every operation keeps the converters, unless it registers one. -/
theorem keeps_operation_converters (operation : Operation)
    (registers : ∀ name converter, operation = .registerConverter name converter →
      ∀ converters, kept converters → kept (converters.register name converter)) :
    operation.perform.Keeps (OfConverters kept) := by
  have refreshed {repository refreshed : Repository} (isKept : OfConverters kept repository)
      (isRefreshed : repository.refresh = .ok refreshed) : OfConverters kept refreshed := by
    rw [OfConverters, converters_of_refresh isRefreshed]
    exact isKept
  intro repository isKept
  cases operation with
  | configure content =>
      exact leads_configure_of content isKept (keeps_onGraph_converters _)
        (keeps_configureTypes (fun _ => keeps_onGraph_converters _) keeps_defineType_converters _)
        (keeps_configureStates (fun _ => keeps_onGraph_converters _)
          fun entry _ declaration _ => keeps_defineState_converters entry.1 declaration)
        (fun _ => id) (keeps_addAllNodes (fun _ _ => keeps_onGraph_converters _) _)
        keeps_configureNode_converters refreshed
  | refresh =>
      exact Change.leads_ask_bind
        (fun _ isRefreshed => Change.leads_set (refreshed isKept isRefreshed)) fun _ _ => isKept
  | addNodeType name declaration =>
      exact ((keeps_defineType_converters name declaration).bind fun _ =>
        (Change.keeps_ask _).bind fun _ => Change.keeps_pure _).answerless repository isKept
  | addState name declaration =>
      exact (keeps_defineState_converters name declaration).answerless repository isKept
  | newTag => exact (keeps_onGraph_converters _).answerless repository isKept
  | tagOrCreate => exact (keeps_onGraph_converters _).answerless repository isKept
  | registerService => exact isKept
  | registerConverter name converter => exact registers name converter rfl _ isKept
  | mutate mutation => exact keeps_mutation_converters mutation repository isKept

/-- The converters keep their contracts in every repository that is reached while those that are
registered for primitive types keep theirs. -/
theorem faithful_of_reached
    (reached : Reached (fun _ operation => operation.Faithful) repository) :
    repository.converters.Faithful := by
  induction reached with
  | empty => exact Converters.faithful_builtIn
  | step _ contract inductionHypothesis =>
      have isKept : OfConverters Converters.Faithful _ := inductionHypothesis
      refine (keeps_operation_converters _ ?_ _ isKept).state_apply
      rintro name converter rfl converters faithful
      exact faithful.register contract

/-! ## Values that are written and read -/

variable {declared : Property} {value : Value}

theorem exists_encodeItems {converter : Converter} {type : DataType} {items : List Value}
    (each : ∀ item ∈ items, ∃ data, converter.encode item type repository.graph = .ok data) :
    ∃ datas, repository.encodeItems converter type items = .ok datas := by
  induction items with
  | nil => exact ⟨[], rfl⟩
  | cons item rest inductionHypothesis =>
      obtain ⟨first, isFirst⟩ := each item (List.mem_cons_self ..)
      obtain ⟨datas, areDatas⟩ := inductionHypothesis fun other member =>
        each other (List.mem_cons_of_mem _ member)
      refine ⟨first :: datas, ?_⟩
      rw [encodeItems, isFirst, areDatas]
      rfl

/-- The value is written, and what is written is read as the value. -/
def RoundTrips (repository : Repository) (declared : Property) (value : Value) : Prop :=
  ∃ data, repository.encodeValue declared value = .ok data ∧
    repository.decodeValue declared data = .ok value

/-- A list of a primitive type is written item by item, and a single value by itself. -/
theorem exists_encodeValue_primitive {converter : Converter}
    (isConverter : repository.converters.converterFor declared.dataType = .ok converter)
    (notAny : declared.dataType ≠ .any)
    (accepted : repository.graph.Validated declared value value) (notEmpty : value.items ≠ [])
    (each : ∀ item ∈ value.items,
      ∃ data, converter.encode item declared.dataType repository.graph = .ok data) :
    ∃ data, repository.encodeValue declared value = .ok data := by
  by_cases list : declared.list = true
  · obtain ⟨items, rfl⟩ := exists_list_of_validated accepted notEmpty list
    obtain ⟨datas, areDatas⟩ := exists_encodeItems each
    rw [encodeValue_list isConverter list]
    exact ⟨.array datas, congrArg (Except.map Json.array) areDatas⟩
  · have single : declared.list = false := by simpa using list
    obtain ⟨notNull, notList⟩ := single_of_validated accepted notEmpty single notAny
    rw [Graph.items_of_single notNull notList] at each
    rw [encodeValue_single isConverter notNull (.inl single)]
    exact each value (List.mem_singleton.mpr rfl)

theorem roundTrips_of_validated (faithful : repository.converters.Faithful)
    (ofPlain : declared.dataType.isPlain = true)
    (accepted : repository.graph.Validated declared value value) (notEmpty : value.items ≠ [])
    (plain : value.isPlain = true) : repository.RoundTrips declared value := by
  cases isType : declared.dataType with
  | any =>
      obtain ⟨⟨data, isData⟩, same⟩ := Converter.exists_encodeAny repository.graph value plain
      have encoded := (encodeValue_any isType value).trans isData
      have read := (rereads_any isType accepted notEmpty encoded).read
      rw [reread, if_pos isType, same] at read
      exact ⟨data, encoded, read⟩
  | primitive kind =>
      have notAny : declared.dataType ≠ .any := by simp [isType]
      obtain ⟨converter, isConverter, contract⟩ := faithful kind
      have keeps : converter.Faithful kind := contract.elim Converter.faithful_of_builtIn? id
      have each (item : Value) (member : item ∈ value.items) := by
        have fits := accepted.fit?_of_mem_items member notAny
        rw [isType] at fits
        exact keeps repository.graph item fits (Value.isPlain_of_mem_items plain member)
      rw [← isType] at isConverter each
      obtain ⟨data, encoded⟩ := exists_encodeValue_primitive isConverter notAny accepted notEmpty
        fun item member => (each item member).1
      have read := (rereads_typed notAny isConverter (fun item member => (each item member).2)
        accepted notEmpty encoded).read
      rw [reread, if_neg notAny] at read
      exact ⟨data, encoded, read⟩
  | _ =>
      rw [isType] at ofPlain
      cases ofPlain

/-- What the check of a property of a primitive type or of any values makes of a given value is
what is held when that is set, if anything is left of it.  If it is plain, it can be written from
then on, whatever becomes of the graph, and is read again as the same value. -/
theorem plain_round_trips (faithful : repository.converters.Faithful)
    (ofPlain : declared.dataType.isPlain = true) :
    (∀ given value, repository.graph.validate declared given = .ok value → value.items ≠ [] →
        value.isPlain = true → ∀ later : Graph,
          { repository with graph := later }.RoundTrips declared value) ∧
      ∀ property id given changed, repository.graph.property? property = some declared →
        (Graph.setProperty id property given).apply repository.graph = (.ok (), changed) →
          ∃ value, repository.graph.validate declared given = .ok value ∧
            changed.valueAt? id property = if value.items.isEmpty then none else some value := by
  refine ⟨fun given value validated notEmpty plain later => ?_, ?_⟩
  · have accepted := ((Graph.validate_eq_ok_iff declared given value).mp validated).again
    exact roundTrips_of_validated faithful ofPlain (accepted.of_isPlain ofPlain later) notEmpty
      plain
  · intro property id given changed isDeclared isSet
    have leads := Graph.leads_setProperty_plain ofPlain isDeclared id given
    rw [Change.Leads, isSet] at leads
    exact leads

/-- A type with untyped notes and a list of integers, and a node of it. -/
def notedTask : Repository :=
  Operation.run
    [.addNodeType "Task" ⟨none, "", [("notes", .text "any"),
        ("counts", .object [("type", .text "integer"), ("list", .boolean true)])]⟩,
      .mutate (.addNode ⟨0⟩ "a")]
    .empty

/-- Lists in a list, one of them empty, beside nothing. -/
def nestedNotes : Value :=
  .list [.null, .list [.integer 3, .text "a", .list []], .boolean true]

/-- The notes are held as they are given, and a single count as a list of it; both are read again
after they were written. -/
theorem plain_round_trips_notedTask :
    ∃ notes counts changed, notedTask.graph.property? ⟨⟨0⟩, 0⟩ = some notes ∧
      notedTask.graph.property? ⟨⟨0⟩, 1⟩ = some counts ∧
      (Graph.setProperty ⟨0⟩ ⟨⟨0⟩, 0⟩ nestedNotes).apply notedTask.graph = (.ok (), changed) ∧
      changed.valueAt? ⟨0⟩ ⟨⟨0⟩, 0⟩ = some nestedNotes ∧
      { notedTask with graph := changed }.RoundTrips notes nestedNotes ∧
      { notedTask with graph := changed }.RoundTrips counts (.list [.integer 7]) := by
  have faithful : notedTask.converters.Faithful :=
    faithful_of_reached (Reached.empty.run (by simp [AllAllowed, Operation.Faithful]))
  have declares : ((notedTask.graph.property? ⟨⟨0⟩, 0⟩).any fun notes =>
        decide (notes.dataType = .any) && !notes.list) = true ∧
      ((notedTask.graph.property? ⟨⟨0⟩, 1⟩).any fun counts =>
        decide (counts.dataType = .primitive .integer) && counts.list) = true := by
    decide
  obtain ⟨notes, isNotes, ofNotes⟩ := (Option.any_eq_true _ _).mp declares.1
  obtain ⟨counts, isCounts, ofCounts⟩ := (Option.any_eq_true _ _).mp declares.2
  simp only [Bool.and_eq_true, decide_eq_true_eq, Bool.not_eq_true'] at ofNotes ofCounts
  have validNotes : notedTask.graph.validate notes nestedNotes = .ok nestedNotes :=
    (Graph.validate_eq_ok_iff _ _ _).mpr (.single ofNotes.2 (by simp [nestedNotes])
      (fun _ _ => ofNotes.1) (by rw [ofNotes.1]; rfl))
  have validCounts :
      notedTask.graph.validate counts (.integer 7) = .ok (.list [.integer 7]) :=
    (Graph.validate_eq_ok_iff _ _ _).mpr (.wrapped ofCounts.2 (by simp) (by simp)
      (by rw [ofCounts.1]; rfl))
  have answer : ((Graph.setProperty ⟨0⟩ ⟨⟨0⟩, 0⟩ nestedNotes).apply notedTask.graph).1 = .ok () :=
    eq_ok_of_toOption (by decide)
  have plainNotes : notes.dataType.isPlain = true := by
    rw [ofNotes.1]
    rfl
  have plainCounts : counts.dataType.isPlain = true := by
    rw [ofCounts.1]
    rfl
  obtain ⟨written, held⟩ := plain_round_trips faithful plainNotes
  obtain ⟨writtenCounts, -⟩ := plain_round_trips faithful plainCounts
  obtain ⟨value, isValue, isHeld⟩ := held _ ⟨0⟩ nestedNotes _ isNotes (Prod.ext answer rfl)
  obtain rfl := Except.ok.inj (validNotes.symm.trans isValue)
  exact ⟨notes, counts, _, isNotes, isCounts, Prod.ext answer rfl, isHeld,
    written _ _ validNotes (by simp [nestedNotes, Value.items]) (by decide) _,
    writtenCounts _ _ validCounts (by simp [Value.items]) (by decide) _⟩

end Repository

end LifecycleGraph
