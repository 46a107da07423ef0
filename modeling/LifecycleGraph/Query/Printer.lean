import LifecycleGraph.Query.Syntax

/-!
# The written form of conditions

A condition is written without blanks, and each condition inside another one
stands in parentheses.  A quoted text has a backslash in front of each quote
and each backslash; a step back along a property has a tilde in front of it.
-/

set_option autoImplicit false

namespace LifecycleGraph

/-- The characters of a quoted text behind the opening quote. -/
def quotedCharacters : List Char → List Char
  | [] => ['"']
  | character :: rest =>
      if character = '"' ∨ character = '\\' then '\\' :: character :: quotedCharacters rest
      else character :: quotedCharacters rest

def Identifier.print : Identifier → String
  | .name text => text
  | .dotted names => Text.joinWith "." names
  | .qualified ns text => ns ++ ":" ++ text

def Literal.print : Literal → String
  | .symbol text => text
  | .quoted text => String.ofList ('"' :: quotedCharacters text.toList)
  | .dotted names => Text.joinWith "." names
  | .qualified ns name => ns ++ ":" ++ name

def printPath (path : List PathStep) : String := Text.joinWith "." (path.map PathStep.text)

mutual
def Condition.print : Condition → String
  | .any terms => Condition.printTerms "|" terms
  | .all terms => Condition.printTerms "&" terms
  | .negation term => "!(" ++ term.print ++ ")"
  | .predicate identifier => identifier.print
  | .relation path compared literals =>
      printPath path ++ compared.text ++ Text.joinWith "," (literals.map Literal.print)
  | .application path mode body =>
      printPath path ++ mode.text ++ "\x7b(" ++ body.print ++ ")\x7d"

/-- Terms in parentheses, with a connective between each two of them. -/
def Condition.printTerms (connective : String) : List Condition → String
  | [] => ""
  | [term] => "(" ++ term.print ++ ")"
  | term :: next :: rest =>
      "(" ++ term.print ++ ")" ++ connective ++ Condition.printTerms connective (next :: rest)
end

end LifecycleGraph
