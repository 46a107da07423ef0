import LifecycleGraph.Query.Token

/-!
# Parsing queries

A query is a sequence of conditions, any of which is enough.  "And" binds more
closely than "or", and "not" more closely than "and".  A condition is a
relation, an application or a predicate; which one it is shows behind the path
or the name that it starts with.  The text without any token has no condition.
-/

set_option autoImplicit false

namespace LifecycleGraph

namespace Condition

structure Parsed (α : Type) where
  value : α
  rest : List PlacedToken

/-- The fault at the first of the tokens left, or at the end of a query of the
given length. -/
def faultAt (length : Nat) (expected : Expectation) : List PlacedToken → SyntaxFault
  | [] => .unexpectedEnd expected length
  | found :: _ => .unexpectedToken expected found.token found.position

def parseSymbol (length : Nat) (expected : Expectation) :
    List PlacedToken → Except SyntaxFault (Parsed String)
  | ⟨_, .symbol text⟩ :: rest => .ok ⟨text, rest⟩
  | tokens => .error (faultAt length expected tokens)

def parseStep (length : Nat) : List PlacedToken → Except SyntaxFault (Parsed PathStep)
  | ⟨_, .tilde⟩ :: rest => do
      let ⟨name, rest⟩ ← parseSymbol length .propertyName rest
      .ok ⟨⟨true, name⟩, rest⟩
  | tokens => do
      let ⟨name, rest⟩ ← parseSymbol length .propertyName tokens
      .ok ⟨⟨false, name⟩, rest⟩

def parseSteps (length : Nat) : Nat → List PlacedToken → Except SyntaxFault (Parsed (List PathStep))
  | fuel + 1, ⟨_, .dot⟩ :: rest => do
      let ⟨step, rest⟩ ← parseStep length rest
      let ⟨steps, rest⟩ ← parseSteps length fuel rest
      .ok ⟨step :: steps, rest⟩
  | _, tokens => .ok ⟨[], tokens⟩

def parsePath (length : Nat) (tokens : List PlacedToken) :
    Except SyntaxFault (Parsed (List PathStep)) := do
  let ⟨step, rest⟩ ← parseStep length tokens
  let ⟨steps, rest⟩ ← parseSteps length rest.length rest
  .ok ⟨step :: steps, rest⟩

def parseNames (length : Nat) : Nat → List PlacedToken → Except SyntaxFault (Parsed (List String))
  | fuel + 1, ⟨_, .dot⟩ :: rest => do
      let ⟨name, rest⟩ ← parseSymbol length .dottedName rest
      let ⟨names, rest⟩ ← parseNames length fuel rest
      .ok ⟨name :: names, rest⟩
  | _, tokens => .ok ⟨[], tokens⟩

def parseLiteral (length : Nat) : List PlacedToken → Except SyntaxFault (Parsed Literal)
  | ⟨_, .quoted text⟩ :: rest => .ok ⟨.quoted text, rest⟩
  | ⟨_, .symbol first⟩ :: ⟨_, .colon⟩ :: rest => do
      let ⟨name, rest⟩ ← parseSymbol length .nodeName rest
      .ok ⟨.qualified first name, rest⟩
  | ⟨_, .symbol first⟩ :: rest => do
      let ⟨names, rest⟩ ← parseNames length rest.length rest
      .ok ⟨if names.isEmpty then .symbol first else .dotted (first :: names), rest⟩
  | tokens => .error (faultAt length .value tokens)

/-- The further right-hand sides of an equality, each behind a comma. -/
def parseLiterals (length : Nat) :
    Nat → List PlacedToken → Except SyntaxFault (Parsed (List Literal))
  | fuel + 1, ⟨_, .comma⟩ :: rest => do
      let ⟨literal, rest⟩ ← parseLiteral length rest
      let ⟨literals, rest⟩ ← parseLiterals length fuel rest
      .ok ⟨literal :: literals, rest⟩
  | _, tokens => .ok ⟨[], tokens⟩

/-- The right-hand sides behind a relation: several only where it tests for
equality. -/
def parseOperands (length : Nat) (relation : Relation) (tokens : List PlacedToken) :
    Except SyntaxFault (Parsed (List Literal)) := do
  let ⟨literal, rest⟩ ← parseLiteral length tokens
  if relation.comparison.isEquality then
    let ⟨literals, rest⟩ ← parseLiterals length rest.length rest
    .ok ⟨literal :: literals, rest⟩
  else .ok ⟨[literal], rest⟩

/-- A path that stands alone is a predicate: a name, or names with dots. -/
def ofPath? (leadingDot : Bool) (path : List PathStep) : Option Condition :=
  if leadingDot || path.any PathStep.reverse then none
  else
    match path.map PathStep.name with
    | [name] => some (.predicate (.name name))
    | names => some (.predicate (.dotted names))

/-- Several terms joined, or the only one. -/
def joined (join : List Condition → Condition) : List Condition → Condition
  | [term] => term
  | terms => join terms

mutual
/-- Terms between which any is enough. -/
def parseAny (length : Nat) : Nat → List PlacedToken → Except SyntaxFault (Parsed Condition)
  | 0, tokens => .error (faultAt length .propertyName tokens)
  | fuel + 1, tokens => do
      let ⟨term, rest⟩ ← parseAll length fuel tokens
      let ⟨terms, rest⟩ ← parseMoreAny length fuel rest
      .ok ⟨joined .any (term :: terms), rest⟩

def parseMoreAny (length : Nat) :
    Nat → List PlacedToken → Except SyntaxFault (Parsed (List Condition))
  | fuel + 1, ⟨_, .or⟩ :: rest => do
      let ⟨term, rest⟩ ← parseAll length fuel rest
      let ⟨terms, rest⟩ ← parseMoreAny length fuel rest
      .ok ⟨term :: terms, rest⟩
  | _, tokens => .ok ⟨[], tokens⟩

/-- Terms that all have to hold. -/
def parseAll (length : Nat) : Nat → List PlacedToken → Except SyntaxFault (Parsed Condition)
  | 0, tokens => .error (faultAt length .propertyName tokens)
  | fuel + 1, tokens => do
      let ⟨term, rest⟩ ← parseUnary length fuel tokens
      let ⟨terms, rest⟩ ← parseMoreAll length fuel rest
      .ok ⟨joined .all (term :: terms), rest⟩

def parseMoreAll (length : Nat) :
    Nat → List PlacedToken → Except SyntaxFault (Parsed (List Condition))
  | fuel + 1, ⟨_, .and⟩ :: rest => do
      let ⟨term, rest⟩ ← parseUnary length fuel rest
      let ⟨terms, rest⟩ ← parseMoreAll length fuel rest
      .ok ⟨term :: terms, rest⟩
  | _, tokens => .ok ⟨[], tokens⟩

/-- A negation, a condition in parentheses, or a single condition. -/
def parseUnary (length : Nat) : Nat → List PlacedToken → Except SyntaxFault (Parsed Condition)
  | 0, tokens => .error (faultAt length .propertyName tokens)
  | fuel + 1, ⟨_, .bang⟩ :: rest => do
      let ⟨term, rest⟩ ← parseUnary length fuel rest
      .ok ⟨.negation term, rest⟩
  | fuel + 1, ⟨_, .openParen⟩ :: rest => do
      let ⟨term, rest⟩ ← parseAny length fuel rest
      match rest with
      | ⟨_, .closeParen⟩ :: rest => .ok ⟨term, rest⟩
      | rest => .error (faultAt length .closeParen rest)
  | _ + 1, ⟨_, .symbol ns⟩ :: ⟨_, .colon⟩ :: rest => do
      let ⟨name, rest⟩ ← parseSymbol length .nodeName rest
      .ok ⟨.predicate (.qualified ns name), rest⟩
  | fuel + 1, ⟨_, .dot⟩ :: rest => parseSingle length fuel true rest
  | fuel + 1, tokens => parseSingle length fuel false tokens

/-- A condition that starts with a path. -/
def parseSingle (length : Nat) :
    Nat → Bool → List PlacedToken → Except SyntaxFault (Parsed Condition)
  | 0, _, tokens => .error (faultAt length .propertyName tokens)
  | fuel + 1, leadingDot, tokens => do
      let ⟨path, rest⟩ ← parsePath length tokens
      match rest with
      | ⟨_, .relation compared⟩ :: rest =>
          let ⟨literals, rest⟩ ← parseOperands length compared rest
          .ok ⟨.relation path compared literals, rest⟩
      | ⟨_, .openBrace⟩ :: rest => parseBody length fuel path .any rest
      | ⟨_, .and⟩ :: ⟨_, .openBrace⟩ :: rest => parseBody length fuel path .all rest
      | ⟨_, .or⟩ :: ⟨_, .openBrace⟩ :: rest => parseBody length fuel path .any rest
      | rest =>
          match ofPath? leadingDot path with
          | some condition => .ok ⟨condition, rest⟩
          | none => .error (faultAt length .pathCondition rest)

def parseBody (length : Nat) :
    Nat → List PathStep → MatchMode → List PlacedToken → Except SyntaxFault (Parsed Condition)
  | 0, _, _, tokens => .error (faultAt length .propertyName tokens)
  | fuel + 1, path, mode, tokens => do
      let ⟨body, rest⟩ ← parseAny length fuel tokens
      match rest with
      | ⟨_, .closeBrace⟩ :: rest => .ok ⟨.application path mode body, rest⟩
      | rest => .error (faultAt length .closeBrace rest)
end

/-- Enough fuel for tokens: between two tokens that are taken, the parser goes
down six levels at most. -/
def fuelFor (tokens : List PlacedToken) : Nat := 8 * (tokens.length + 1)

/-- The conditions of a query, one behind the other; the fuel is the number of
tokens. -/
def parseTerms (length : Nat) : Nat → List PlacedToken → Except SyntaxFault (List Condition)
  | _, [] => .ok []
  | 0, _ :: _ => .ok []
  | fuel + 1, token :: rest => do
      let ⟨term, behind⟩ ← parseAny length (fuelFor (token :: rest)) (token :: rest)
      let terms ← parseTerms length fuel behind
      .ok (term :: terms)

/-- The condition of a query text; a blank one has none and means every node. -/
def parse (text : String) : Except SyntaxFault (Option Condition) := do
  let tokens ← Token.scanAll text.toList
  let terms ← parseTerms text.utf8ByteSize tokens.length tokens
  .ok (match terms with
    | [] => none
    | [term] => some term
    | terms => some (.any terms))

end Condition

end LifecycleGraph
