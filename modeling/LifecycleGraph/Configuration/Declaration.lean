import LifecycleGraph.Configuration.Record
import LifecycleGraph.Graph.State

/-!
# Declarations of types and states

How node types and states are declared in configuration.  A property is the
name of its type, or an object about it; a transition is a truth value that
says whether it is automatic, the guard of an automatic one, or an object.
-/

set_option autoImplicit false

namespace LifecycleGraph

inductive PropertyDeclaration where
  | short (type : String)
  | full (type : String) (required list : Bool) (default : Option Json) (description : String)

namespace PropertyDeclaration

def type : PropertyDeclaration → String
  | short name => name
  | full name _ _ _ _ => name

/-- An object about a property; its type is any where it names none. -/
def ofMembers? (members : Json.Members) : Option PropertyDeclaration := do
  let type ← Json.fieldOr "any" Json.text? (Json.member? "type" members)
  let required ← Json.fieldOr false Json.boolean? (Json.member? "required" members)
  let list ← Json.fieldOr false Json.boolean? (Json.member? "list" members)
  let default ← Json.optionalField some (Json.member? "default" members)
  let description ← Json.fieldOr "" Json.text? (Json.member? "description" members)
  some (full type required list default description)

def ofJson? : Json → Option PropertyDeclaration
  | .text name => some (short name)
  | .object members => ofMembers? members
  | _ => none

end PropertyDeclaration

structure TypeDeclaration where
  base : Option String
  description : String
  properties : Json.Members

namespace TypeDeclaration

def plain : TypeDeclaration := ⟨none, "", []⟩

def ofFields? : List (Option Json) → Option TypeDeclaration
  | [base, description, properties] => do
      let base ← Json.optionalField Json.text? base
      let description ← Json.fieldOr "" Json.text? description
      let properties ← Json.fieldOr [] Json.members? properties
      some ⟨base, description, properties⟩
  | _ => none

def ofJson? (data : Json) : Option TypeDeclaration :=
  (data.record? ["base", "description", "properties"]).bind ofFields?

def propertyDeclarations? (declaration : TypeDeclaration) :
    Option (List (String × PropertyDeclaration)) :=
  declaration.properties.mapM fun (name, data) =>
    (PropertyDeclaration.ofJson? data).map (name, ·)

end TypeDeclaration

inductive TransitionDeclaration where
  | automatic (automatic : Bool)
  | guarded (guard : String)
  | full (automatic : Bool) (guard : String)

namespace TransitionDeclaration

def ofJson? : Json → Option TransitionDeclaration
  | .boolean value => some (automatic value)
  | .text text => some (guarded text)
  | .object members => do
      let automatic ← Json.fieldOr false Json.boolean? (Json.member? "auto" members)
      let guard ← Json.fieldOr "" Json.text? (Json.member? "condition" members)
      some (full automatic guard)
  | _ => none

/-- Whether a transition is automatic, and its guard; nothing declares one that
has to be asked for. -/
def parts : Option TransitionDeclaration → Bool × String
  | none => (false, "")
  | some (automatic value) => (value, "")
  | some (guarded text) => (true, text)
  | some (full value text) => (value, text)

end TransitionDeclaration

/-- The labels of a state for services: one for all, or the services of each label
by label. -/
inductive ServiceLabels where
  | all (label : String)
  | byLabel (services : Table String (List String))

namespace ServiceLabels

def names? : Json → Option (List String)
  | .text name => some [name]
  | data => data.texts?

def ofJson? : Json → Option ServiceLabels
  | .text label => some (all label)
  | .object members => do
      let entries ← members.mapM fun (label, data) => (names? data).map (label, ·)
      some (byLabel (.ofList entries))
  | _ => none

end ServiceLabels

namespace Lifecycle

def name : Lifecycle → String
  | initial => "initial"
  | final => "final"

def ofName? (name : String) : Option Lifecycle :=
  if name = "initial" then some initial
  else if name = "final" then some final
  else none

def ofJson? : Json → Option Lifecycle
  | .text name => ofName? name
  | .object [(name, .null)] => ofName? name
  | _ => none

end Lifecycle

structure StateDeclaration where
  description : String
  lifecycle : Option Lifecycle
  condition : String
  transitions : Json.Members
  services : Option ServiceLabels

namespace StateDeclaration

def plain : StateDeclaration := ⟨"", none, "", [], none⟩

def ofFields? : List (Option Json) → Option StateDeclaration
  | [description, lifecycle, condition, transitions, services] => do
      let description ← Json.fieldOr "" Json.text? description
      let lifecycle ← Json.optionalField Lifecycle.ofJson? lifecycle
      let condition ← Json.fieldOr "" Json.text? condition
      let transitions ← Json.fieldOr [] Json.members? transitions
      let services ← Json.optionalField ServiceLabels.ofJson? services
      some ⟨description, lifecycle, condition, transitions, services⟩
  | _ => none

/-- A state is declared by nothing, by its description, or by a record. -/
def ofJson (data : Json) : Except Fault StateDeclaration :=
  match data with
  | .null => .ok plain
  | .text description => .ok { plain with description }
  | other =>
      match (other.record?
        ["description", "lifecycle", "condition", "transitions", "services"]).bind ofFields? with
      | some declaration => .ok declaration
      | none => .error (.schema (.stateMisfit Json.misfitReason))

def transitionDeclarations (declaration : StateDeclaration) :
    Except Fault (List (String × Option TransitionDeclaration)) :=
  declaration.transitions.mapM fun (target, data) =>
    match data with
    | .null => .ok (target, none)
    | other =>
        match TransitionDeclaration.ofJson? other with
        | some transition => .ok (target, some transition)
        | none => .error (.schema (.transitionMisfit target Json.misfitReason))

end StateDeclaration

end LifecycleGraph
