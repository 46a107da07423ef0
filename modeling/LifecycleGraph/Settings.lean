import LifecycleGraph.Collection.Named
import LifecycleGraph.Decimal.Reader
import LifecycleGraph.Text.Parts

/-!
# Settings

The settings of an engine have defaults, which variables of the environment
replace: the name of a variable is that of the application, a section and a
key, with two underscores between them.
-/

set_option autoImplicit false

namespace LifecycleGraph

structure Settings where
  /-- The rounds after which a run that has not converged is given up. -/
  maxRounds : Nat
  /-- The milliseconds after which a service is late. -/
  serviceTimeout : Nat
  logFilter : String
deriving DecidableEq, Repr

namespace Settings

def default : Settings := ⟨32, 30000, "info"⟩

/-- The parts of a text between double underscores. -/
def splitName : List Char → List (List Char)
  | [] => [[]]
  | '_' :: '_' :: rest => [] :: splitName rest
  | character :: rest =>
      match splitName rest with
      | [] => [[character]]
      | part :: parts => (character :: part) :: parts

def lowerCase (text : String) : String := String.ofList (text.toList.map Char.toLower)

/-- A number of sixty-four bits without a minus; the words for yes and no count
as one and zero. -/
def readCount? (text : String) : Option Nat :=
  let word := lowerCase text
  if ["true", "on", "yes"].contains word then some 1
  else if ["false", "off", "no"].contains word then some 0
  else
    let figures := match text.toList with
      | '+' :: rest => rest
      | other => other
    if figures.isEmpty || !figures.all Char.isDigit then none
    else
      let value := Decimal.naturalFrom 0 figures
      if Decimal.fitsWord value then some value else none

/-- The variables of an environment in which they were set one after the other:
one that is set again keeps its place. -/
def settledVariables (environment : List (String × String)) : List (String × String) :=
  environment.foldl (fun known entry => putNamed entry.1 entry.2 known) []

/-- The value of a key of a section; of names that differ in case the last counts. -/
def value? (application part key : String) (known : List (String × String)) : Option String :=
  let parts := [application, part, key].map fun name => (lowerCase name).toList
  (known.reverse.find? fun entry => splitName (lowerCase entry.1).toList == parts).map Prod.snd

/-- The settings with the variables of an environment; a variable of another
form, or of a key that is not known, is passed over. -/
def load (application : String) (environment : List (String × String)) : Option Settings := do
  let value := fun part key => value? application part key (settledVariables environment)
  let maxRounds ← match value "engine" "max_rounds" with
    | some text => readCount? text
    | none => some default.maxRounds
  let serviceTimeout ← match value "engine" "service_timeout_ms" with
    | some text => readCount? text
    | none => some default.serviceTimeout
  some ⟨maxRounds, serviceTimeout, (value "logging" "filter").getD default.logFilter⟩

end Settings

end LifecycleGraph
