import LifecycleGraph.Query.Evaluation

/-!
# Selectors

A list of rules, each a query with a value, and a default.  The first rule
whose query a node satisfies selects its value.
-/

set_option autoImplicit false

namespace LifecycleGraph

structure Selector (α : Type) where
  rules : List (Query × α)
  default : α

namespace Selector

variable {α : Type}

def ofDefault (default : α) : Selector α := ⟨[], default⟩

/-- Keys that stand for the default in place of a query. -/
def isDefaultKey (key : String) : Bool := key == "" || key == "*"

/-- A selector of query texts and values. -/
def ofEntries (repository : Repository) : List (String × α) → Selector α →
    Except Fault (Selector α)
  | [], selector => .ok selector
  | (key, value) :: rest, selector =>
      if isDefaultKey key then ofEntries repository rest { selector with default := value }
      else do
        let query ← repository.boundQuery key
        ofEntries repository rest { selector with rules := selector.rules ++ [(query, value)] }

/-- Puts a rule in front of all others. -/
def add (selector : Selector α) (query : Query) (value : α) : Selector α :=
  { selector with rules := (query, value) :: selector.rules }

def refreshRules (repository : Repository) :
    List (Query × α) → Except Fault (List (Query × α))
  | [] => .ok []
  | (query, value) :: rest => do
      let query ← repository.rebind query
      let others ← refreshRules repository rest
      .ok ((query, value) :: others)

def refresh (repository : Repository) (selector : Selector α) : Except Fault (Selector α) :=
  (refreshRules repository selector.rules).map fun rules => { selector with rules }

structure Compiled (α : Type) where
  rules : List (NodeExecutor × α)
  default : α

def compileRules (repository : Repository) :
    List (Query × α) → Except Fault (List (NodeExecutor × α))
  | [] => .ok []
  | (query, value) :: rest => do
      let executor ← repository.compile query
      let others ← compileRules repository rest
      .ok ((executor, value) :: others)

def compile (repository : Repository) (selector : Selector α) : Except Fault (Compiled α) :=
  (compileRules repository selector.rules).map fun rules => ⟨rules, selector.default⟩

def Compiled.select (compiled : Compiled α) (id : NodeId) : α :=
  ((compiled.rules.find? fun rule => rule.1.accepts id).map Prod.snd).getD compiled.default

/-- A selector of configuration data: an object has a value for each query text,
and any other data but null is the default. -/
def ofJson (repository : Repository) (data default : Json) : Except Fault (Selector Json) :=
  match data with
  | .object members => ofEntries repository members (ofDefault default)
  | .null => .ok (ofDefault default)
  | other => .ok (ofDefault other)

end Selector

end LifecycleGraph
