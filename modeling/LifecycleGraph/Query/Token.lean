import LifecycleGraph.Collection.Total
import LifecycleGraph.Query.Syntax
import LifecycleGraph.Text.Blank
import LifecycleGraph.Decimal.Layout

/-!
# The tokens of queries

A query text is cut into symbols, quoted texts, marks and relations.  A relation
takes as many characters as it can, and the mode mark that stands immediately in
front of it.  Each token is placed at the number of bytes in front of it.
-/

set_option autoImplicit false

namespace LifecycleGraph

inductive Token where
  | symbol (text : String)
  | quoted (text : String)
  | dot
  | colon
  | comma
  | openParen
  | closeParen
  | openBrace
  | closeBrace
  | tilde
  | bang
  | and
  | or
  | relation (relation : Relation)
deriving DecidableEq, Repr

structure PlacedToken where
  position : Nat
  token : Token
deriving DecidableEq, Repr

def Token.text : Token → String
  | .symbol text => "'" ++ text ++ "'"
  | .quoted text => "\"" ++ text ++ "\""
  | .dot => "'.'"
  | .colon => "':'"
  | .comma => "','"
  | .openParen => "'('"
  | .closeParen => "')'"
  | .openBrace => "'\x7b'"
  | .closeBrace => "'\x7d'"
  | .tilde => "'~'"
  | .bang => "'!'"
  | .and => "'&'"
  | .or => "'|'"
  | .relation written => "'" ++ written.text ++ "'"

/-- What a query lacks at the place of a fault. -/
inductive Expectation where
  | closeParen
  | closeBrace
  | nodeName
  | propertyName
  | value
  | dottedName
  | pathCondition
deriving DecidableEq, Repr

def Expectation.text : Expectation → String
  | .closeParen => "expected ')'"
  | .closeBrace => "expected '\x7d'"
  | .nodeName => "expected a node name after ':'"
  | .propertyName => "expected a property name"
  | .value => "expected a value"
  | .dottedName => "expected a name after '.'"
  | .pathCondition => "a property path needs a condition"

/-- Why a text is no query. -/
inductive SyntaxFault where
  | unterminatedText (position : Nat)
  | unexpectedCharacter (character : Char) (position : Nat)
  | unexpectedToken (expected : Expectation) (token : Token) (position : Nat)
  | unexpectedEnd (expected : Expectation) (length : Nat)
deriving DecidableEq, Repr

def SyntaxFault.message : SyntaxFault → String
  | .unterminatedText position =>
      "unterminated string at position " ++ toString position
  | .unexpectedCharacter character position =>
      "unexpected character '" ++ String.singleton character ++ "' at position " ++
        toString position
  | .unexpectedToken expected token position =>
      expected.text ++ ": unexpected " ++ token.text ++ " at position " ++ toString position
  | .unexpectedEnd expected length =>
      expected.text ++ ": unexpected end of query at " ++ toString length

namespace Token

def byteWidth (text : List Char) : Nat := total Char.utf8Size text

def scanComparison? : List Char → Option (Comparison × List Char)
  | '=' :: '=' :: rest => some (.equal, rest)
  | '=' :: rest => some (.equal, rest)
  | '!' :: '=' :: rest => some (.unequal, rest)
  | '<' :: '=' :: rest => some (.lessOrEqual, rest)
  | '<' :: rest => some (.less, rest)
  | '>' :: '=' :: rest => some (.greaterOrEqual, rest)
  | '>' :: rest => some (.greater, rest)
  | _ => none

def unescape (character : Char) : Char :=
  match character with
  | 'n' => '\n'
  | 't' => '\t'
  | 'r' => '\r'
  | other => other

/-- The characters up to the closing quote, and the text behind it. -/
def scanQuoted? : List Char → Option (List Char × List Char)
  | [] => none
  | '\\' :: [] => none
  | '\\' :: escaped :: rest =>
      (scanQuoted? rest).map fun (read, rest) => (unescape escaped :: read, rest)
  | character :: rest =>
      if character = '"' then some ([], rest)
      else (scanQuoted? rest).map fun (read, rest) => (character :: read, rest)

/-- A mark of a mode: the relation that is glued to it, or the connective. -/
def scanMode (mode : MatchMode) (connective : Token) (rest : List Char) : Token × List Char :=
  match scanComparison? rest with
  | some (comparison, rest) => (relation ⟨some mode, comparison⟩, rest)
  | none => (connective, rest)

/-- The token that starts with a character, and the text behind it. -/
def scan (position : Nat) (first : Char) (rest : List Char) :
    Except SyntaxFault (Token × List Char) :=
  match first with
  | '.' => .ok (dot, rest)
  | ':' => .ok (colon, rest)
  | ',' => .ok (comma, rest)
  | '(' => .ok (openParen, rest)
  | ')' => .ok (closeParen, rest)
  | '\x7b' => .ok (openBrace, rest)
  | '\x7d' => .ok (closeBrace, rest)
  | '~' => .ok (tilde, rest)
  | '&' => .ok (scanMode .all and rest)
  | '|' => .ok (scanMode .any or rest)
  | '"' =>
      match scanQuoted? rest with
      | some (read, rest) => .ok (quoted (String.ofList read), rest)
      | none => .error (.unterminatedText position)
  | first =>
      match scanComparison? (first :: rest) with
      | some (comparison, rest) => .ok (relation ⟨none, comparison⟩, rest)
      | none =>
          if first = '!' then .ok (bang, rest)
          else if isSymbolChar first then
            .ok (symbol (String.ofList (first :: rest.takeWhile isSymbolChar)),
              rest.dropWhile isSymbolChar)
          else .error (.unexpectedCharacter first position)

/-- The tokens of a text that starts at a position; each step takes at least
one character, so the length of the text is fuel enough. -/
def scanFrom : Nat → Nat → List Char → Except SyntaxFault (List PlacedToken)
  | _, _, [] => .ok []
  | 0, _, _ :: _ => .ok []
  | fuel + 1, position, first :: rest =>
      if Text.isBlank first then scanFrom fuel (position + first.utf8Size) rest
      else do
        let (token, behind) ← scan position first rest
        let next := position + byteWidth (first :: rest) - byteWidth behind
        let tokens ← scanFrom fuel next behind
        .ok (⟨position, token⟩ :: tokens)

def scanAll (text : List Char) : Except SyntaxFault (List PlacedToken) :=
  scanFrom text.length 0 text

end Token

end LifecycleGraph
