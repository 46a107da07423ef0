import LifecycleGraph.Proofs.Graph.Validation
import LifecycleGraph.Proofs.Repository.Resolution

/-!
# Values that are written and read back

Where names tell tags and nodes apart, what a built-in converter writes for a value that
a property holds is read as that value.  Only in untyped values tags and nodes become
texts, which are written as before.  What is written does not depend on what nodes carry.
-/

set_option autoImplicit false

namespace LifecycleGraph

namespace Graph

/-- Names tell tags and nodes apart, and a colon in front of a name ends that of a type. -/
structure Unambiguous (graph : Graph) : Prop where
  tags : graph.tags.DistinctlyNamed
  nodes : graph.DistinctlyNamed
  types : ∀ id type, graph.type? id = some type → ':' ∉ type.name.toList

theorem unambiguous_of_nodup {graph : Graph}
    (tags : (graph.tags.arena.values.map Tag.name).Nodup)
    (nodes : (graph.nodes.values.map Node.name).Nodup)
    (types : ∀ type ∈ graph.types.members, ':' ∉ type.name.toList) : graph.Unambiguous where
  tags := Forest.distinctlyNamed_of_nodup tags
  nodes := distinctlyNamed_of_nodup nodes
  types id type found := types type ((graph.types.mem_members_iff type).mpr ⟨id.index, found⟩)

end Graph

/-! ## Converters of a kind -/

namespace Converters

variable {kind : Converter → Prop} {converters : Converters}

/-- Every converter that is registered is of a kind. -/
def All (kind : Converter → Prop) (converters : Converters) : Prop :=
  ∀ name converter, converters.byName.find? name = some converter → kind converter

theorem all_empty : All kind ⟨.empty⟩ := fun _ _ found => by cases found

theorem All.register (all : converters.All kind) (name : String) {converter : Converter}
    (isOfKind : kind converter) : (converters.register name converter).All kind := by
  intro other another found
  rw [Converters.register, Table.find?_insert] at found
  split at found
  · cases found
    exact isOfKind
  · exact all other another found

theorem all_builtIn (text : kind .text) (number : kind .number) (integer : kind .integer)
    (boolean : kind .boolean) (tag : kind .tag) (node : kind .node) : builtIn.All kind :=
  all_empty.register "string" text |>.register "number" number |>.register "integer" integer
    |>.register "boolean" boolean |>.register "tag" tag |>.register "node" node

/-- The converter of a data type is registered, unless it is the one of untyped values. -/
theorem All.of_converterFor (all : converters.All kind) (any : kind .any) {type : DataType}
    {converter : Converter} (found : converters.converterFor type = .ok converter) :
    kind converter := by
  rw [Converters.converterFor] at found
  split at found
  · cases found
    exact any
  · split at found
    · rename_i registered
      cases found
      exact all _ _ registered
    · cases found

end Converters

namespace Converter

variable {graph : Graph} {type : DataType} {value : Value} {data : Json}

/-- What the converter writes for the value is read as the value, and null is written for
nothing else. -/
def ReadsBack (converter : Converter) (type : DataType) (graph : Graph) (value : Value) : Prop :=
  ∀ data, converter.encode value type graph = .ok data →
    converter.decode data type graph = .ok value ∧ (data.isNull = true → value = .null)

/-- What the converter writes does not depend on what nodes carry. -/
def Steady (converter : Converter) : Prop :=
  ∀ value type old new, Graph.SameBared old new →
    converter.encode value type new = converter.encode value type old

/-- The converter of a data type, where it is not one of its own. -/
def builtIn? : DataType → Option Converter
  | .primitive .text => some text
  | .primitive .number => some number
  | .primitive .integer => some integer
  | .primitive .boolean => some boolean
  | .tag _ => some tag
  | .node _ => some node
  | .any => some any
  | .custom _ => none

theorem converterFor_builtIn {type : DataType} {converter : Converter}
    (builtIn : builtIn? type = some converter) :
    Converters.builtIn.converterFor type = .ok converter := by
  cases type with
  | primitive kind => cases kind <;> cases builtIn <;> rfl
  | custom name => cases builtIn
  | _ =>
      cases builtIn
      rfl

/-! ## Single values -/

theorem fitsInteger_toInt (content : Int64) : Decimal.fitsInteger content.toInt = true := by
  have lower := content.le_toInt
  have upper := content.toInt_lt
  rw [Decimal.fitsInteger_iff, Decimal.negativeCount]
  omega

theorem readsBack_text (content : String) : text.ReadsBack type graph (.text content) := by
  rintro data ⟨⟩
  exact ⟨rfl, fun isNull => by cases isNull⟩

theorem readsBack_boolean (content : Bool) : boolean.ReadsBack type graph (.boolean content) := by
  rintro data ⟨⟩
  exact ⟨rfl, fun isNull => by cases isNull⟩

theorem readsBack_integer (content : Int64) :
    integer.ReadsBack type graph (.integer content) := by
  rintro data ⟨⟩
  refine ⟨?_, fun isNull => by cases isNull⟩
  simp [integer, integerOfNumber?, fitsInteger_toInt]

theorem readsBack_number (content : Float) : number.ReadsBack type graph (.number content) := by
  intro data encoded
  simp only [number, finite] at encoded
  split at encoded
  · cases encoded
  · cases encoded
    exact ⟨rfl, fun isNull => by cases isNull⟩

theorem readsBack_tag (linked : graph.tags.Linked) (distinct : graph.tags.DistinctlyNamed)
    (ns : Option TagId) (id : TagId) : tag.ReadsBack (.tag ns) graph (.tag id) := by
  intro data encoded
  by_cases present : graph.tags.contains id = true
  · rw [encode_tag ns present] at encoded
    cases encoded
    obtain ⟨read, decoded, answers, -⟩ := exists_decode_tag linked ns present
    have notEmpty : graph.tags.namesOf ns id ≠ [] :=
      linked.parts_namesOf ns present ▸ Text.parts_ne_nil '.' _
    obtain rfl := Forest.eq_of_answers linked distinct notEmpty
      (linked.rooted.answers_namesOf ns present) answers
    exact ⟨decoded, fun isNull => by cases isNull⟩
  · have gone : graph.tags.find? id = none := by simpa [Forest.contains] using present
    simp only [tag, gone] at encoded
    cases encoded

theorem readsBack_node (listed : graph.Listed) (proper : graph.Proper)
    (unambiguous : graph.Unambiguous) (declared : Option TypeId) {id : NodeId} {entry : Node}
    (found : graph.node? id = some entry) :
    node.ReadsBack (.node declared) graph (.node id) := by
  intro data encoded
  obtain ⟨own, isOwn⟩ := Option.isSome_iff_exists.mp
    ((Graph.isSome_type?_iff entry.type).mpr (listed.type_lt found))
  have valid := (proper id entry found).name
  have searched : graph.nodeNamed? entry.name (some entry.type) = (Except.ok id).map some :=
    Graph.nodeNamed?_of_distinct listed unambiguous.nodes found valid
  rw [encode_node found isOwn] at encoded
  cases encoded
  refine ⟨?_, fun isNull => by cases isNull⟩
  exact decode_node listed isOwn (unambiguous.types entry.type own isOwn) valid searched declared

theorem readsBack_primitive {kind : Primitive} {converter : Converter}
    (builtIn : builtIn? (.primitive kind) = some converter)
    (fits : graph.fit? (.primitive kind) value = some value) :
    converter.ReadsBack type graph value := by
  cases kind <;> cases builtIn <;> cases value <;> try cases fits
  · exact readsBack_text _
  · exact readsBack_number _
  · exact readsBack_integer _
  · exact readsBack_boolean _

/-- A value that a property of a type accepts is read back by the converter of the type. -/
theorem readsBack_of_fit? (listed : graph.Listed) (proper : graph.Proper)
    (unambiguous : graph.Unambiguous) {converter : Converter}
    (builtIn : builtIn? type = some converter) (notAny : type ≠ .any)
    (fits : graph.fit? type value = some value) : converter.ReadsBack type graph value := by
  cases type with
  | primitive kind => exact readsBack_primitive builtIn fits
  | tag ns =>
      cases builtIn
      obtain ⟨id, rfl, -, -⟩ := (Graph.fit?_tag_eq_some_iff ns value value).mp fits
      exact readsBack_tag listed.linked unambiguous.tags ns id
  | node declared =>
      cases builtIn
      obtain ⟨id, rfl, -, admits⟩ := (Graph.fit?_node_eq_some_iff declared value value).mp fits
      obtain ⟨own, isOwn, -⟩ := admits
      obtain ⟨entry, found, -⟩ := Option.map_eq_some_iff.mp isOwn
      exact readsBack_node listed proper unambiguous declared found
  | custom name => cases builtIn
  | any => exact absurd rfl notAny

/-! ## Untyped values -/

/-- The text that an untyped tag or node is written as. -/
def spelling (graph : Graph) (value : Value) : Value :=
  match encodeAny graph value with
  | .ok (.text name) => .text name
  | _ => .null

mutual
/-- An untyped value with the names of its tags and nodes in their places. -/
def spelled (graph : Graph) : Value → Value
  | .tag id => spelling graph (.tag id)
  | .node id => spelling graph (.node id)
  | .list items => .list (spelledItems graph items)
  | other => other

def spelledItems (graph : Graph) : List Value → List Value
  | [] => []
  | item :: rest => spelled graph item :: spelledItems graph rest
end

theorem length_spelledItems (graph : Graph) (items : List Value) :
    (spelledItems graph items).length = items.length := by
  induction items with
  | nil => rfl
  | cons item rest inductionHypothesis =>
      rw [spelledItems, List.length_cons, List.length_cons, inductionHypothesis]

theorem spelling_eq {name : String} (encoded : encodeAny graph value = .ok (.text name)) :
    spelling graph value = .text name := by
  rw [spelling, encoded]

/-- A tag or a node is written as a text. -/
theorem text_of_encodeAny_tag {id : TagId} (encoded : encodeAny graph (.tag id) = .ok data) :
    ∃ name, data = .text name := by
  simp only [encodeAny, tag] at encoded
  split at encoded
  · cases encoded
  · cases encoded
    exact ⟨_, rfl⟩

theorem text_of_encodeAny_node {id : NodeId} (encoded : encodeAny graph (.node id) = .ok data) :
    ∃ name, data = .text name := by
  simp only [encodeAny, node] at encoded
  split at encoded
  · cases encoded
  · cases encoded
    exact ⟨_, rfl⟩

/-- The data of an untyped value is read as the value with names, and written for it. -/
def Respelled (graph : Graph) (value : Value) (data : Json) : Prop :=
  decodeAny data = .ok (spelled graph value) ∧ encodeAny graph (spelled graph value) = .ok data

theorem respelled_name {name : String} (encoded : encodeAny graph value = .ok (.text name))
    (isSpelled : spelled graph value = spelling graph value) :
    Respelled graph value (.text name) := by
  rw [Respelled, isSpelled, spelling_eq encoded]
  exact ⟨rfl, rfl⟩

mutual
theorem respelled_encodeAny (graph : Graph) : (value : Value) → (data : Json) →
    encodeAny graph value = .ok data → Respelled graph value data
  | .null, _, rfl => ⟨rfl, rfl⟩
  | .text _, _, rfl => ⟨rfl, rfl⟩
  | .boolean _, _, rfl => ⟨rfl, rfl⟩
  | .integer content, _, rfl => by
      refine ⟨?_, rfl⟩
      simp [decodeAny, fitsInteger_toInt, spelled]
  | .number content, data, encoded => by
      refine ⟨?_, encoded⟩
      simp only [encodeAny, finite] at encoded
      split at encoded
      · cases encoded
      · cases encoded
        rfl
  | .tag id, data, encoded => by
      obtain ⟨name, rfl⟩ := text_of_encodeAny_tag encoded
      exact respelled_name encoded rfl
  | .node id, data, encoded => by
      obtain ⟨name, rfl⟩ := text_of_encodeAny_node encoded
      exact respelled_name encoded rfl
  | .list items, data, encoded => by
      obtain ⟨datas, areDatas, rfl⟩ := exists_of_map_eq_ok encoded
      obtain ⟨read, written⟩ := respelled_encodeAnyItems graph items datas areDatas
      simp only [Respelled, decodeAny, spelled, encodeAny, read, written]
      exact ⟨rfl, rfl⟩

theorem respelled_encodeAnyItems (graph : Graph) : (items : List Value) → (datas : List Json) →
    encodeAnyItems graph items = .ok datas →
      decodeAnyItems datas = .ok (spelledItems graph items) ∧
        encodeAnyItems graph (spelledItems graph items) = .ok datas
  | [], _, rfl => ⟨rfl, rfl⟩
  | item :: rest, datas, encoded => by
      obtain ⟨first, isFirst, encoded⟩ := exists_of_bind_eq_ok encoded
      obtain ⟨others, areOthers, same⟩ := exists_of_bind_eq_ok encoded
      cases same
      obtain ⟨read, written⟩ := respelled_encodeAny graph item first isFirst
      obtain ⟨readOthers, writtenOthers⟩ := respelled_encodeAnyItems graph rest others areOthers
      simp only [decodeAnyItems, spelledItems, encodeAnyItems, read, written, readOthers,
        writtenOthers]
      exact ⟨rfl, rfl⟩
end

theorem isNull_of_encodeAny (encoded : encodeAny graph value = .ok data)
    (isNull : data.isNull = true) : value = .null := by
  cases value with
  | null => rfl
  | number content =>
      simp only [encodeAny, finite] at encoded
      split at encoded <;> cases encoded
      cases isNull
  | tag id =>
      obtain ⟨name, rfl⟩ := text_of_encodeAny_tag encoded
      cases isNull
  | node id =>
      obtain ⟨name, rfl⟩ := text_of_encodeAny_node encoded
      cases isNull
  | list items =>
      obtain ⟨datas, -, rfl⟩ := exists_of_map_eq_ok encoded
      cases isNull
  | _ =>
      cases encoded
      cases isNull

/-! ## Writing does not depend on what nodes carry -/

theorem steady_tag : tag.Steady := by
  intro value type old new same
  simp only [tag, same.tags]

theorem steady_node : node.Steady := by
  intro value type old new same
  cases value with
  | node id =>
      simp only [node, Graph.type?, same.types]
      cases found : old.node? id with
      | none =>
          have known := same.bared id
          rw [found, Option.map_none, Option.map_eq_none_iff] at known
          rw [known]
      | some entry =>
          obtain ⟨now, isNow, bared⟩ := same.node? found
          have names : now.name = entry.name := (congrArg Node.name bared :)
          have types : now.type = entry.type := (congrArg Node.type bared :)
          simp only [isNow, names, types]
  | _ => rfl

mutual
theorem steady_encodeAny {old new : Graph} (same : old.SameBared new) :
    (value : Value) → encodeAny new value = encodeAny old value
  | .null => rfl
  | .text _ => rfl
  | .boolean _ => rfl
  | .integer _ => rfl
  | .number _ => rfl
  | .tag id => steady_tag (.tag id) (.tag none) old new same
  | .node id => steady_node (.node id) (.node none) old new same
  | .list items => by simp only [encodeAny, steady_encodeAnyItems same items]

theorem steady_encodeAnyItems {old new : Graph} (same : old.SameBared new) :
    (items : List Value) → encodeAnyItems new items = encodeAnyItems old items
  | [] => rfl
  | item :: rest => by
      simp only [encodeAnyItems, steady_encodeAny same item, steady_encodeAnyItems same rest]
end

theorem steady_of_builtIn? {converter : Converter} (builtIn : builtIn? type = some converter) :
    converter.Steady := by
  cases type with
  | primitive kind => cases kind <;> cases builtIn <;> exact fun _ _ _ _ _ => rfl
  | tag ns =>
      cases builtIn
      exact steady_tag
  | node declared =>
      cases builtIn
      exact steady_node
  | custom name => cases builtIn
  | any =>
      cases builtIn
      exact fun value _ _ _ same => steady_encodeAny same value

/-- A value with items has items also where names stand for its tags and nodes. -/
theorem items_spelled (encoded : encodeAny graph value = .ok data) (notEmpty : value.items ≠ []) :
    (spelled graph value).items ≠ [] := by
  have named {name : String} (written : encodeAny graph value = .ok (.text name)) :
      (spelling graph value).items ≠ [] := by
    rw [spelling_eq written]
    exact List.cons_ne_nil _ _
  cases value with
  | tag id =>
      obtain ⟨name, rfl⟩ := text_of_encodeAny_tag encoded
      exact named encoded
  | node id =>
      obtain ⟨name, rfl⟩ := text_of_encodeAny_node encoded
      exact named encoded
  | list items =>
      rw [spelled, Value.items, ← List.length_pos_iff_ne_nil, length_spelledItems,
        List.length_pos_iff_ne_nil]
      exact notEmpty
  | _ => exact notEmpty

end Converter

end LifecycleGraph
