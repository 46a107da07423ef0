import LifecycleGraph.Graph.Basic
import LifecycleGraph.Decimal.Reader
import LifecycleGraph.Decimal.Whole
import LifecycleGraph.Text.Blank

/-!
# Converters

A converter writes values of a type as configuration data and reads them back.
There is one for each primitive type, one for tags and one for nodes, which are
written by name; untyped values are written as what they are.  Converters are
kept by name, and a name may be given another converter.
-/

set_option autoImplicit false

namespace LifecycleGraph

structure Converter where
  encode : Value → DataType → Graph → Except Fault Json
  decode : Json → DataType → Graph → Except Fault Value

namespace Converter

/-- The text that data may stand for: a text itself, a number or a truth value. -/
def textOf? : Json → Option String
  | .text value => some value
  | .integer value => some (Json.integer value).render
  | .float value => some (Json.float value).render
  | .boolean value => some (Json.boolean value).render
  | _ => none

/-- A number in written form; one that is not finite has none. -/
def finite (number : Float) : Except Fault Json :=
  if number.isNaN || number.isInf then .error (.value (.noWrittenForm number))
  else .ok (.float number)

def text : Converter where
  encode value _ _ :=
    match value with
    | .text content => .ok (.text content)
    | other => .error (.value (.wrongKind other "string"))
  decode data _ _ :=
    match textOf? data with
    | some content => .ok (.text content)
    | none => .error (.value (.expectedText data))

def number : Converter where
  encode value _ _ :=
    match value with
    | .number content => finite content
    | .integer content => .ok (.float (Float.ofInt content.toInt))
    | other => .error (.value (.wrongKind other "number"))
  decode data _ _ :=
    match data with
    | .integer content => .ok (.number (Float.ofInt content))
    | .float content => .ok (.number content)
    | .text content =>
        match Decimal.readFloat? (Text.trimBlank content.toList) with
        | some read => .ok (.number read)
        | none => .error (.value (.notNumber content))
    | other => .error (.value (.notNumber other.render))

/-- A number as an integer of sixty-four bits.  A double must be whole; one that
is too large for the integers goes to the nearest of them. -/
def integerOfNumber? : Json → Option Int64
  | .integer content =>
      if Decimal.fitsInteger content then some (Int64.ofInt content)
      else (Decimal.wholeNumber? (Float.ofInt content)).map fun whole =>
        Int64.ofInt (Decimal.clampInteger whole)
  | .float content =>
      (Decimal.wholeNumber? content).map fun whole => Int64.ofInt (Decimal.clampInteger whole)
  | _ => none

def integer : Converter where
  encode value _ _ :=
    match value with
    | .integer content => .ok (.integer content.toInt)
    | other => .error (.value (.wrongKind other "integer"))
  decode data _ _ :=
    match data with
    | .text content =>
        match Decimal.readInteger? (Text.trimBlank content.toList) with
        | some read => .ok (.integer (Int64.ofInt read))
        | none => .error (.value (.notInteger content))
    | other =>
        match integerOfNumber? other with
        | some content => .ok (.integer content)
        | none => .error (.value (.notInteger other.render))

def isAffirmative (content : String) : Bool :=
  ["1", "true", "yes"].contains (String.ofList (content.toList.map Char.toLower))

def boolean : Converter where
  encode value _ _ :=
    match value with
    | .boolean content => .ok (.boolean content)
    | other => .error (.value (.wrongKind other "boolean"))
  decode data _ _ :=
    match data with
    | .boolean content => .ok (.boolean content)
    | .text content => .ok (.boolean (isAffirmative content))
    | .integer content => .ok (.boolean (content != 0))
    | .float content => .ok (.boolean (content != 0))
    | other => .error (.value (.notBoolean other))

/-- Tags are written by their own name directly below the namespace of the type,
and by their absolute name elsewhere. -/
def tag : Converter where
  encode value type graph :=
    match value with
    | .tag id =>
        match graph.tags.find? id with
        | none => .error (.noTag id)
        | some entry =>
            match type with
            | .tag (some ns) =>
                .ok (.text (if entry.parent = some ns then entry.name
                  else graph.tags.absoluteName id))
            | _ => .ok (.text (graph.tags.absoluteName id))
    | other => .error (.value (.wrongKind other "tag"))
  decode data type graph :=
    match textOf? data with
    | none => .error (.value (.expectedTagName data))
    | some name =>
        let found := match type with
          | .tag (some ns) => graph.tags.lookupBelow? ns name <|> graph.tags.lookup? name
          | _ => graph.tags.lookup? name
        match found with
        | some id => .ok (.tag id)
        | none => .error (.notFound .tag name)

/-- Nodes are written by their own name where the type is exactly theirs, and
with the name of their type elsewhere. -/
def node : Converter where
  encode value type graph :=
    match value with
    | .node id =>
        match graph.node? id with
        | none => .error (.noNode id)
        | some entry =>
            let qualified :=
              ((graph.type? entry.type).map NodeType.name).getD "" ++ ":" ++ entry.name
            match type with
            | .node (some declared) =>
                .ok (.text (if declared = entry.type then entry.name else qualified))
            | _ => .ok (.text qualified)
    | other => .error (.value (.wrongKind other "node"))
  decode data type graph :=
    match textOf? data with
    | none => .error (.value (.expectedNodeName data))
    | some name =>
        let declared := match type with
          | .node declared => declared
          | _ => none
        (graph.nodeNamed name declared).map .node

mutual
def encodeAny (graph : Graph) : Value → Except Fault Json
  | .null => .ok .null
  | .text content => .ok (.text content)
  | .integer content => .ok (.integer content.toInt)
  | .number content => finite content
  | .boolean content => .ok (.boolean content)
  | .tag id => tag.encode (.tag id) (.tag none) graph
  | .node id => node.encode (.node id) (.node none) graph
  | .list items => (encodeAnyItems graph items).map .array

def encodeAnyItems (graph : Graph) : List Value → Except Fault (List Json)
  | [] => .ok []
  | item :: rest => do
      let item ← encodeAny graph item
      let rest ← encodeAnyItems graph rest
      .ok (item :: rest)
end

mutual
def decodeAny : Json → Except Fault Value
  | .null => .ok .null
  | .text content => .ok (.text content)
  | .boolean content => .ok (.boolean content)
  | .integer content =>
      .ok (if Decimal.fitsInteger content then .integer (Int64.ofInt content)
        else .number (Float.ofInt content))
  | .float content => .ok (.number content)
  | .array items => (decodeAnyItems items).map .list
  | .object _ => .error (.value .objectValue)

def decodeAnyItems : List Json → Except Fault (List Value)
  | [] => .ok []
  | item :: rest => do
      let item ← decodeAny item
      let rest ← decodeAnyItems rest
      .ok (item :: rest)
end

def any : Converter where
  encode value _ graph := encodeAny graph value
  decode data _ _ := decodeAny data

end Converter

structure Converters where
  byName : Table String Converter

namespace Converters

def builtIn : Converters :=
  ⟨.ofList [("string", .text), ("number", .number), ("integer", .integer),
    ("boolean", .boolean), ("tag", .tag), ("node", .node)]⟩

def register (converters : Converters) (name : String) (converter : Converter) : Converters :=
  ⟨converters.byName.insert name converter⟩

def contains (converters : Converters) (name : String) : Bool := converters.byName.contains name

def converterFor (converters : Converters) (type : DataType) : Except Fault Converter :=
  match type.converterName? with
  | none => .ok .any
  | some name =>
      match converters.byName.find? name with
      | some converter => .ok converter
      | none => .error (.notFound .converter name)

end Converters

end LifecycleGraph
