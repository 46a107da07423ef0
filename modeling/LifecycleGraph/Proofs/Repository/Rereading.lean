import LifecycleGraph.Proofs.Repository.Conversion

/-!
# Values of properties that are read again

A property with a converter that keeps the contract reads what is written for a value
that it holds as a value that it accepts, with the same written form.  For a typed
property it is the value itself.  Whatever is written for tags shows that they are there.
-/

set_option autoImplicit false

namespace LifecycleGraph

namespace Repository

variable {repository : Repository} {converter : Converter} {type : DataType}
  {property : Property} {value : Value} {data : Json}

/-- The converter of the property is the built-in one of its type or another one that reads back
what it writes for each item of the value, which does not depend on what nodes carry.  Such
a one may write tags that are gone, so that those of the value must be there. -/
def Converts (repository : Repository) (property : Property) (value : Value) : Prop :=
  ∀ converter, repository.converters.converterFor property.dataType = .ok converter →
    Converter.builtIn? property.dataType = some converter ∨
      (property.isTag = true → ∀ tag ∈ value.tags, repository.graph.tags.contains tag = true) ∧
        converter.Steady ∧
          ∀ item ∈ value.items, converter.ReadsBack property.dataType repository.graph item

section Converter

variable (isConverter : repository.converters.converterFor property.dataType = .ok converter)

include isConverter

theorem encodeValue_list (list : property.list = true) (items : List Value) :
    repository.encodeValue property (.list items) =
      (repository.encodeItems converter property.dataType items).map .array := by
  rw [encodeValue, isConverter]
  exact if_pos list

theorem encodeValue_single (notNull : value ≠ .null)
    (single : property.list = false ∨ ∀ items, value ≠ .list items) :
    repository.encodeValue property value =
      converter.encode value property.dataType repository.graph := by
  rw [encodeValue, isConverter]
  cases value with
  | null => exact absurd rfl notNull
  | list items =>
      rcases single with single | notList
      · exact if_neg (by simp [single])
      · exact absurd rfl (notList items)
  | _ => rfl

theorem decodeValue_array (list : property.list = true) (items : List Json) :
    repository.decodeValue property (.array items) =
      (repository.decodeItems converter property.dataType items).map .list := by
  rw [decodeValue, isConverter]
  exact if_pos list

theorem decodeValue_null :
    repository.decodeValue property .null =
      .ok (if property.list then .list [] else .null) := by
  rw [decodeValue, isConverter]
  by_cases list : property.list = true
  · simp only [list, if_true]
    rfl
  · simp only [list, Bool.false_eq_true, if_false]
    rfl

theorem decodeValue_single (single : property.list = false) (notNull : data.isNull = false) :
    repository.decodeValue property data =
      converter.decode data property.dataType repository.graph := by
  rw [decodeValue, isConverter]
  simp only [single, notNull, Bool.false_eq_true, if_false]
  rfl

end Converter

section Shape

variable {graph : Graph} (accepted : graph.Validated property value value)
  (notEmpty : value.items ≠ [])

include accepted notEmpty

/-- A value of a list property is a list. -/
theorem exists_list_of_validated (list : property.list = true) : ∃ items, value = .list items := by
  cases accepted with
  | null => exact absurd rfl notEmpty
  | list _ _ => exact ⟨_, rfl⟩
  | wrapped _ _ notList => exact absurd rfl (notList _)
  | single single =>
      rw [list] at single
      cases single

/-- A value of another property is none, unless it is untyped. -/
theorem single_of_validated (single : property.list = false) (notAny : property.dataType ≠ .any) :
    value ≠ .null ∧ ∀ items, value ≠ .list items := by
  refine ⟨fun isNull => notEmpty (by rw [isNull]; rfl), fun items isList => ?_⟩
  cases accepted with
  | null => cases isList
  | list list =>
      rw [single] at list
      cases list
  | wrapped list =>
      rw [single] at list
      cases list
  | single _ _ anyList => exact notAny (anyList items isList)

end Shape

theorem Converts.steady (converts : repository.Converts property value)
    (isConverter : repository.converters.converterFor property.dataType = .ok converter) :
    converter.Steady := by
  rcases converts converter isConverter with builtIn | ⟨-, steady, -⟩
  · exact Converter.steady_of_builtIn? builtIn
  · exact steady

theorem encodeItems_of_sameBared {changed : Graph} (steady : converter.Steady)
    (same : repository.graph.SameBared changed) (items : List Value) :
    { repository with graph := changed }.encodeItems converter type items =
      repository.encodeItems converter type items := by
  induction items with
  | nil => rfl
  | cons item rest inductionHypothesis =>
      simp only [encodeItems, steady item type repository.graph changed same, inductionHypothesis]

/-- A value is written as before while nodes carry other values. -/
theorem encodeValue_of_sameBared {changed : Graph} (converts : repository.Converts property value)
    (same : repository.graph.SameBared changed) (other : Value) :
    { repository with graph := changed }.encodeValue property other =
      repository.encodeValue property other := by
  unfold encodeValue
  cases isConverter : repository.converters.converterFor property.dataType with
  | error fault => rfl
  | ok converter =>
      have steady := converts.steady isConverter
      have single (value : Value) := steady value property.dataType repository.graph changed same
      cases other with
      | null => rfl
      | list items =>
          refine ite_congr rfl (fun _ => ?_) fun _ => single _
          exact congrArg _ (encodeItems_of_sameBared steady same items)
      | _ => exact single _

/-- What is read of the written form of a value. -/
def reread (graph : Graph) (property : Property) (value : Value) : Value :=
  if property.dataType = .any then Converter.spelled graph value else value

/-- The written form of a value is read as one that the property accepts, with items and the
same written form. -/
structure Rereads (repository : Repository) (property : Property) (value : Value) (data : Json) :
    Prop where
  notNull : data.isNull = false
  read : repository.decodeValue property data = .ok (reread repository.graph property value)
  accepted : repository.graph.Validated property (reread repository.graph property value)
    (reread repository.graph property value)
  notEmpty : (reread repository.graph property value).items ≠ []
  written : repository.encodeValue property (reread repository.graph property value) = .ok data

theorem encodeItems_any (items : List Value) :
    repository.encodeItems .any type items = Converter.encodeAnyItems repository.graph items := by
  induction items with
  | nil => rfl
  | cons item rest inductionHypothesis =>
      simp only [encodeItems, Converter.encodeAnyItems, Converter.any, ← inductionHypothesis]

theorem decodeItems_any (items : List Json) :
    repository.decodeItems .any type items = Converter.decodeAnyItems items := by
  induction items with
  | nil => rfl
  | cons item rest inductionHypothesis =>
      simp only [decodeItems, Converter.decodeAnyItems, Converter.any, ← inductionHypothesis]

theorem converterFor_any (converters : Converters) (isAny : property.dataType = .any) :
    converters.converterFor property.dataType = .ok .any := by
  rw [isAny]
  rfl

theorem encodeValue_any (isAny : property.dataType = .any) (value : Value) :
    repository.encodeValue property value = Converter.encodeAny repository.graph value := by
  have isConverter := converterFor_any repository.converters isAny
  by_cases notNull : value = .null
  · rw [notNull, encodeValue, isConverter]
    rfl
  by_cases listed : property.list = true ∧ ∃ items, value = .list items
  · obtain ⟨list, items, rfl⟩ := listed
    rw [encodeValue_list isConverter list, encodeItems_any]
    rfl
  · rw [encodeValue_single isConverter notNull]
    · rfl
    · by_cases list : property.list = true
      · exact .inr fun items isList => listed ⟨list, items, isList⟩
      · exact .inl (by simpa using list)

/-- The written form of an untyped value is read with names, as a list where lists are held. -/
theorem rereads_any (isAny : property.dataType = .any)
    (accepted : repository.graph.Validated property value value) (notEmpty : value.items ≠ [])
    (encoded : repository.encodeValue property value = .ok data) :
    Rereads repository property value data := by
  have isConverter := converterFor_any repository.converters isAny
  have isSpelled : reread repository.graph property value =
      Converter.spelled repository.graph value := if_pos isAny
  rw [encodeValue_any isAny] at encoded
  obtain ⟨read, written⟩ := Converter.respelled_encodeAny repository.graph value data encoded
  have items := Converter.items_spelled encoded notEmpty
  have notNull : data.isNull = false := by
    by_contra isNull
    rw [Converter.isNull_of_encodeAny encoded (by simpa using isNull)] at notEmpty
    exact notEmpty rfl
  have fits (item : Value) : repository.graph.fit? property.dataType item = some item := by
    rw [isAny]
    cases item <;> rfl
  refine ⟨notNull, ?_, ?_, ?_, ?_⟩ <;> rw [isSpelled]
  · by_cases list : property.list = true
    · obtain ⟨held, rfl⟩ := exists_list_of_validated accepted notEmpty list
      obtain ⟨datas, -, rfl⟩ := exists_of_map_eq_ok encoded
      rw [decodeValue_array isConverter list, decodeItems_any]
      exact read
    · rw [decodeValue_single isConverter (by simpa using list) notNull]
      exact read
  · by_cases list : property.list = true
    · obtain ⟨held, rfl⟩ := exists_list_of_validated accepted notEmpty list
      exact .list list (List.forall₂_same.mpr fun item _ => fits item)
    · refine .single (by simpa using list) ?_ (fun _ _ => isAny) (fits _)
      intro isNull
      rw [isNull] at items
      exact items rfl
  · exact items
  · rw [encodeValue_any isAny]
    exact written

theorem decodeItems_of_encodeItems {items : List Value} {datas : List Json}
    (each : ∀ item ∈ items, converter.ReadsBack type repository.graph item)
    (encoded : repository.encodeItems converter type items = .ok datas) :
    repository.decodeItems converter type datas = .ok items := by
  induction items generalizing datas with
  | nil =>
      cases encoded
      rfl
  | cons item rest inductionHypothesis =>
      obtain ⟨first, isFirst, encoded⟩ := exists_of_bind_eq_ok encoded
      obtain ⟨others, areOthers, same⟩ := exists_of_bind_eq_ok encoded
      cases same
      obtain ⟨read, -⟩ := each item (List.mem_cons_self ..) first isFirst
      have readOthers := inductionHypothesis
        (fun other member => each other (List.mem_cons_of_mem _ member)) areOthers
      rw [decodeItems, read, readOthers]
      rfl

/-- The written form of a typed value is read as the value, where each item is read back. -/
theorem rereads_typed (notAny : property.dataType ≠ .any)
    (isConverter : repository.converters.converterFor property.dataType = .ok converter)
    (each : ∀ item ∈ value.items, converter.ReadsBack property.dataType repository.graph item)
    (accepted : repository.graph.Validated property value value) (notEmpty : value.items ≠ [])
    (encoded : repository.encodeValue property value = .ok data) :
    Rereads repository property value data := by
  have isValue : reread repository.graph property value = value := if_neg notAny
  suffices back : data.isNull = false ∧ repository.decodeValue property data = .ok value by
    refine ⟨back.1, ?_, ?_, ?_, ?_⟩ <;> rw [isValue]
    · exact back.2
    · exact accepted
    · exact notEmpty
    · exact encoded
  by_cases list : property.list = true
  · obtain ⟨items, rfl⟩ := exists_list_of_validated accepted notEmpty list
    rw [encodeValue_list isConverter list] at encoded
    obtain ⟨datas, areDatas, rfl⟩ := exists_of_map_eq_ok encoded
    rw [decodeValue_array isConverter list, decodeItems_of_encodeItems each areDatas]
    exact ⟨rfl, rfl⟩
  · have single : property.list = false := by simpa using list
    obtain ⟨notNull, notList⟩ := single_of_validated accepted notEmpty single notAny
    rw [Graph.items_of_single notNull notList] at each
    rw [encodeValue_single isConverter notNull (.inl single)] at encoded
    obtain ⟨read, onlyNull⟩ := each value (List.mem_singleton.mpr rfl) data encoded
    have dataNotNull : data.isNull = false := by
      by_contra isNull
      exact notNull (onlyNull (by simpa using isNull))
    rw [decodeValue_single isConverter single dataNotNull]
    exact ⟨dataNotNull, read⟩

/-- What is written for a value that its property accepts is read as one with the same written
form. -/
theorem rereads (listed : repository.graph.Listed) (proper : repository.graph.Proper)
    (unambiguous : repository.graph.Unambiguous)
    (converts : repository.Converts property value)
    (accepted : repository.graph.Validated property value value) (notEmpty : value.items ≠ [])
    (encoded : repository.encodeValue property value = .ok data) :
    Rereads repository property value data := by
  by_cases isAny : property.dataType = .any
  · exact rereads_any isAny accepted notEmpty encoded
  · obtain ⟨converter, isConverter, -⟩ := exists_of_bind_eq_ok encoded
    refine rereads_typed isAny isConverter (fun item member => ?_) accepted notEmpty encoded
    rcases converts converter isConverter with builtIn | ⟨-, -, readsBack⟩
    · exact Converter.readsBack_of_fit? listed proper unambiguous builtIn isAny
        (accepted.fit?_of_mem_items member isAny)
    · exact readsBack item member

/-! ## Values that are held -/

theorem encodes_of_encodeItems {items : List Value} {datas : List Json}
    (encoded : repository.encodeItems converter type items = .ok datas) {item : Value}
    (member : item ∈ items) : ∃ data, converter.encode item type repository.graph = .ok data := by
  induction items generalizing datas with
  | nil => cases member
  | cons first rest inductionHypothesis =>
      obtain ⟨data, isFirst, encoded⟩ := exists_of_bind_eq_ok encoded
      obtain ⟨others, areOthers, -⟩ := exists_of_bind_eq_ok encoded
      rcases List.mem_cons.mp member with rfl | inRest
      · exact ⟨data, isFirst⟩
      · exact inductionHypothesis areOthers inRest

/-- A typed value is written item by item. -/
theorem encodes_of_mem_items {graph : Graph} (notAny : property.dataType ≠ .any)
    (isConverter : repository.converters.converterFor property.dataType = .ok converter)
    (accepted : graph.Validated property value value) {item : Value} (member : item ∈ value.items)
    (encoded : repository.encodeValue property value = .ok data) :
    ∃ data, converter.encode item property.dataType repository.graph = .ok data := by
  have notEmpty := List.ne_nil_of_mem member
  by_cases list : property.list = true
  · obtain ⟨items, rfl⟩ := exists_list_of_validated accepted notEmpty list
    rw [encodeValue_list isConverter list] at encoded
    obtain ⟨datas, areDatas, -⟩ := exists_of_map_eq_ok encoded
    exact encodes_of_encodeItems areDatas member
  · have single : property.list = false := by simpa using list
    obtain ⟨notNull, notList⟩ := single_of_validated accepted notEmpty single notAny
    rw [Graph.items_of_single notNull notList, List.mem_singleton] at member
    rw [encodeValue_single isConverter notNull (.inl single)] at encoded
    exact ⟨data, member ▸ encoded⟩

/-- The tags of a value that can be written are there. -/
theorem contains_of_encodeValue {graph : Graph} (converts : repository.Converts property value)
    (accepted : graph.Validated property value value)
    (encoded : repository.encodeValue property value = .ok data) {ns : Option TagId}
    (isType : property.dataType = .tag ns) {tag : TagId} (member : tag ∈ value.tags) :
    repository.graph.tags.contains tag = true := by
  obtain ⟨converter, isConverter, -⟩ := exists_of_bind_eq_ok encoded
  have notAny : property.dataType ≠ .any := by simp [isType]
  obtain ⟨written, isWritten⟩ := encodes_of_mem_items notAny isConverter accepted
    ((Value.mem_tags_iff value tag).mp member) encoded
  rcases converts converter isConverter with builtIn | ⟨present, -⟩
  · rw [isType] at builtIn isWritten
    cases builtIn
    simp only [Converter.tag] at isWritten
    cases found : repository.graph.tags.find? tag with
    | none =>
        rw [found] at isWritten
        cases isWritten
    | some entry => exact (Forest.contains_iff tag).mpr ⟨entry, found⟩
  · exact present (property.isTag_iff.mpr ⟨ns, isType⟩) tag member

/-- A value that is held and can be written is accepted again as it is. -/
theorem accepted_of_encodeValue (converts : repository.Converts property value)
    (fits : repository.graph.Fits property value)
    (encoded : repository.encodeValue property value = .ok data) :
    repository.graph.Validated property value value := by
  obtain ⟨past, accepted⟩ := fits.accepted
  refine accepted.of_admits ?_ ?_
  · intro base id isType member _
    obtain ⟨same, isSame, admits⟩ :=
      (fits.nodes (property.isNode_iff.mpr ⟨base, isType⟩)).admitsNode isType
        ((Value.mem_nodes_iff value id).mp member)
    cases isSame
    exact admits
  · intro ns tag isType member _
    exact (fits.tags ns isType tag member).2
      (contains_of_encodeValue converts accepted encoded isType member)

end Repository

end LifecycleGraph
