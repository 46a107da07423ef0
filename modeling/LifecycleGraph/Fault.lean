import LifecycleGraph.Value
import LifecycleGraph.Query.Token

/-!
# Faults

Why an operation did not succeed.  A fault is a cause with the things it
concerns; its wording is one function, `Fault.message`.  Causes that pass on
another fault hold that fault.
-/

set_option autoImplicit false

namespace LifecycleGraph

inductive Noun where
  | node
  | nodeType
  | tag
  | state
  | property
  | converter
deriving DecidableEq, Repr

def Noun.text : Noun → String
  | .node => "node"
  | .nodeType => "node type"
  | .tag => "tag"
  | .state => "state"
  | .property => "property"
  | .converter => "converter"

inductive Phase where
  | update
  | modified
deriving DecidableEq, Repr

def Phase.text : Phase → String
  | .update => "update"
  | .modified => "modified"

/-- A broken agreement between nodes and the indices over them. -/
inductive IntegrityFault where
  | unknownProperty (node : String) (property : PropertyId)
  | noReverseEntry (node property target : String)
  | tagNotListed (node property tag : String)
  | noReference (node referrer : String)
  | tagNotIndexed (node tag : String)
  | stateNotIndexed (node : String)
  | tagNotHeld (node tag : String)
  | stateNotHeld (node state : String)
deriving DecidableEq, Repr

def IntegrityFault.message : IntegrityFault → String
  | .unknownProperty node property => node ++ ": unknown property " ++ property.text
  | .noReverseEntry node property target =>
      node ++ "." ++ property ++ " -> " ++ target ++ " has no reverse entry"
  | .tagNotListed node property tag =>
      node ++ "." ++ property ++ ": tag " ++ tag ++ " missing from the tag list"
  | .noReference node referrer =>
      node ++ " lists " ++ referrer ++ " as referrer but it holds no reference"
  | .tagNotIndexed node tag => node ++ ": tag " ++ tag ++ " not indexed"
  | .stateNotIndexed node => node ++ ": state not indexed"
  | .tagNotHeld node tag =>
      "tag index lists " ++ node ++ " under " ++ tag ++ " but the node lacks it"
  | .stateNotHeld node state => "state index lists " ++ node ++ " under " ++ state

mutual

inductive Fault where
  | query (fault : QueryFault)
  | ambiguous (name first second : String)
  | notFound (noun : Noun) (name : String)
  | schema (fault : SchemaFault)
  | value (fault : ValueFault)
  | integrity (fault : IntegrityFault)
  | nonTermination (phase : Phase) (rounds : Nat)
  | service (service reason : String)

inductive QueryFault where
  | malformed (fault : SyntaxFault)
  | emptyPath
  | unresolvedStep (step : PathStep)
  | operand (text : String) (cause : Fault)
  | unknownNamespace (ns name : String)
  | unknownType (id : TypeId)
  | unknownState (id : StateId)
  | noSuchNode (name : String)
  | noSuchTag (name : String)
  | noSuchName (name : String)

inductive SchemaFault where
  | invalidTagName (name : String)
  | tagListEntry (entry : Json)
  | tagEntry (name : String) (entry : Json)
  | tagsShape (found : Json)
  | typeMisfit (type reason : String)
  | unknownBase (type base : String)
  | propertyType (type property : String) (cause : Fault)
  | unknownDataType (name : String)
  | cyclicBase (type : String)
  | stateMisfit (reason : String)
  | transitionMisfit (target reason : String)
  | unknownTarget (state target : String)
  | unknownStateService (state service : String)
  | nodesOfUnknownType (type : String)
  | nodesShape (type : String) (found : Json)
  | nodeMisfit (type node reason : String)
  | invalidNodeName (name : String)
  | nodeExists (type node : String)
  | unknownNodeState (node state : String)
  | unknownNodeProperty (node property : String)
  | unknownNodeService (node service : String)
  | serviceShape (node service expected : String) (found : Json)
  | missingProperty (node property : String)
  | invalidNodeTag (node tag : String)

inductive ValueFault where
  | wrongKind (value : Value) (expected : String)
  | noWrittenForm (number : Float)
  | expectedText (data : Json)
  | expectedTagName (data : Json)
  | expectedNodeName (data : Json)
  | notNumber (text : String)
  | notInteger (text : String)
  | notBoolean (data : Json)
  | objectValue
  | undeclaredProperty (property type : String)
  | misfit (value : Value) (property type : String)
  | singleValued (property : String)
  | nodeProperty (node property : String) (cause : Fault)
  | converter (reason : String)

end

mutual

def Fault.message : Fault → String
  | .query fault => "query format error: " ++ fault.message
  | .ambiguous name first second =>
      name ++ ": ambiguous name (in " ++ first ++ " and " ++ second ++ ")"
  | .notFound noun name => noun.text ++ " '" ++ name ++ "' not found"
  | .schema fault => "schema error: " ++ fault.message
  | .value fault => "value error: " ++ fault.message
  | .integrity fault => "referential integrity violated: " ++ fault.message
  | .nonTermination phase rounds =>
      phase.text ++ " did not converge within " ++ toString rounds ++ " rounds"
  | .service service reason => "service '" ++ service ++ "' failed: " ++ reason

def QueryFault.message : QueryFault → String
  | .malformed fault => fault.message
  | .emptyPath => "empty property path"
  | .unresolvedStep step => step.text ++ ": property not found or type mismatch"
  | .operand text cause => "'" ++ text ++ "': " ++ cause.message
  | .unknownNamespace ns name => ns ++ ":" ++ name ++ ": unknown node type"
  | .unknownType id => "unknown node type " ++ id.text
  | .unknownState id => "unknown state " ++ id.text
  | .noSuchNode name => name ++ ": no such node"
  | .noSuchTag name => name ++ ": no tag found"
  | .noSuchName name => name ++ ": no node, state or tag by that name"

def SchemaFault.message : SchemaFault → String
  | .invalidTagName name => "invalid tag name '" ++ name ++ "'"
  | .tagListEntry entry => "tag list entry " ++ entry.render ++ " is not a string"
  | .tagEntry name entry =>
      "tag '" ++ name ++ "': unexpected configuration " ++ entry.render
  | .tagsShape found => "tags must be a list or an object, got " ++ found.render
  | .typeMisfit type reason => "type '" ++ type ++ "': " ++ reason
  | .unknownBase type base => "type '" ++ type ++ "': unknown base type '" ++ base ++ "'"
  | .propertyType type property cause => type ++ "." ++ property ++ ": " ++ cause.message
  | .unknownDataType name => "unknown data type '" ++ name ++ "'"
  | .cyclicBase type => "type '" ++ type ++ "': base chain is cyclic"
  | .stateMisfit reason => "state configuration: " ++ reason
  | .transitionMisfit target reason => "transition to '" ++ target ++ "': " ++ reason
  | .unknownTarget state target =>
      "state '" ++ state ++ "': unknown transition target '" ++ target ++ "'"
  | .unknownStateService state service =>
      "state '" ++ state ++ "': unknown service '" ++ service ++ "'"
  | .nodesOfUnknownType type => "nodes: unknown type '" ++ type ++ "'"
  | .nodesShape type found =>
      "nodes of '" ++ type ++ "' must be an object, got " ++ found.render
  | .nodeMisfit type node reason => "node '" ++ type ++ ":" ++ node ++ "': " ++ reason
  | .invalidNodeName name => "invalid node name '" ++ name ++ "'"
  | .nodeExists type node => "node '" ++ type ++ ":" ++ node ++ "' already exists"
  | .unknownNodeState node state =>
      "node '" ++ node ++ "': unknown state '" ++ state ++ "'"
  | .unknownNodeProperty node property =>
      "node '" ++ node ++ "': unknown property '" ++ property ++ "'"
  | .unknownNodeService node service =>
      "node '" ++ node ++ "': unknown service '" ++ service ++ "'"
  | .serviceShape node service expected found =>
      "node '" ++ node ++ "': service '" ++ service ++ "': expected " ++ expected ++
        ", got " ++ found.render
  | .missingProperty node property =>
      "node '" ++ node ++ "': required property '" ++ property ++ "' is missing"
  | .invalidNodeTag node tag => "node '" ++ node ++ "': invalid tag name '" ++ tag ++ "'"

def ValueFault.message : ValueFault → String
  | .wrongKind value expected => value.display ++ " is not a " ++ expected ++ " value"
  | .noWrittenForm number => Decimal.floatText .message number ++ " has no JSON form"
  | .expectedText data => data.render ++ ": expected a string"
  | .expectedTagName data => data.render ++ ": expected a tag name"
  | .expectedNodeName data => data.render ++ ": expected a node name"
  | .notNumber text => text ++ ": not a number"
  | .notInteger text => text ++ ": not an integer"
  | .notBoolean data => data.render ++ ": not a boolean"
  | .objectValue => "objects are not property values"
  | .undeclaredProperty property type =>
      "property '" ++ property ++ "' is not declared on '" ++ type ++ "'"
  | .misfit value property type =>
      value.display ++ " does not fit property '" ++ property ++ "' of type " ++ type
  | .singleValued property => "property '" ++ property ++ "' holds a single value"
  | .nodeProperty node property cause =>
      "node '" ++ node ++ "', property '" ++ property ++ "': " ++ cause.message
  | .converter reason => reason

end

instance : Inhabited Fault := ⟨.query .emptyPath⟩

/-- A handle for which there is nothing. -/
def Fault.noTag (id : TagId) : Fault := .notFound .tag id.text
def Fault.noNode (id : NodeId) : Fault := .notFound .node id.text
def Fault.noState (id : StateId) : Fault := .notFound .state id.text
def Fault.noType (id : TypeId) : Fault := .notFound .nodeType id.text

def Fault.ofSyntax (fault : SyntaxFault) : Fault := .query (.malformed fault)

end LifecycleGraph
