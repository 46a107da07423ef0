import LifecycleGraph.Proofs.Query.Token

/-!
# Written conditions are scanned

A condition is written as its tokens one behind the other.  The tokens of a
well-formed condition are legible, and no two symbols and no two operators
among them meet, so that they are scanned again.
-/

set_option autoImplicit false

namespace LifecycleGraph

/-! ## The tokens of a condition -/

/-- Pieces with a separator between each two of them. -/
def Token.separated (separator : Token) : List (List Token) → List Token
  | [] => []
  | piece :: pieces => piece ++ pieces.flatMap (separator :: ·)

def nameTokens (names : List String) : List Token :=
  Token.separated .dot (names.map fun name => [.symbol name])

def PathStep.tokens (step : PathStep) : List Token :=
  if step.reverse then [.tilde, .symbol step.name] else [.symbol step.name]

def pathTokens (path : List PathStep) : List Token :=
  Token.separated .dot (path.map PathStep.tokens)

def Identifier.tokens : Identifier → List Token
  | .name text => [.symbol text]
  | .dotted names => nameTokens names
  | .qualified ns text => [.symbol ns, .colon, .symbol text]

def Literal.tokens : Literal → List Token
  | .symbol text => [.symbol text]
  | .quoted text => [.quoted text]
  | .dotted names => nameTokens names
  | .qualified ns name => [.symbol ns, .colon, .symbol name]

def literalTokens (literals : List Literal) : List Token :=
  Token.separated .comma (literals.map Literal.tokens)

def MatchMode.token : MatchMode → Token
  | .all => .and
  | .any => .or

namespace Condition

mutual
def tokens : Condition → List Token
  | .any terms => Token.separated .or (groups terms)
  | .all terms => Token.separated .and (groups terms)
  | .negation term => .bang :: .openParen :: (term.tokens ++ [.closeParen])
  | .predicate identifier => identifier.tokens
  | .relation path compared literals =>
      pathTokens path ++ .relation compared :: literalTokens literals
  | .application path mode body =>
      pathTokens path ++ mode.token :: .openBrace ::
        (.openParen :: (body.tokens ++ [.closeParen]) ++ [.closeBrace])

/-- The terms, each in parentheses. -/
def groups : List Condition → List (List Token)
  | [] => []
  | term :: rest => (.openParen :: (term.tokens ++ [.closeParen])) :: groups rest
end

/-- A condition in parentheses. -/
def group (term : Condition) : List Token := .openParen :: (term.tokens ++ [.closeParen])

theorem groups_eq (terms : List Condition) : groups terms = terms.map group := by
  induction terms with
  | nil => rfl
  | cons term rest inductionHypothesis => rw [groups, inductionHypothesis]; rfl

end Condition

/-! ## What the tokens are written as -/

namespace Token

def writtenAll (tokens : List Token) : List Char := tokens.flatMap written

@[simp] theorem writtenAll_nil : writtenAll [] = [] := rfl

@[simp] theorem writtenAll_append (tokens others : List Token) :
    writtenAll (tokens ++ others) = writtenAll tokens ++ writtenAll others :=
  List.flatMap_append

@[simp] theorem writtenAll_cons (token : Token) (rest : List Token) :
    writtenAll (token :: rest) = token.written ++ writtenAll rest :=
  List.flatMap_cons

theorem toList_joinWith {α : Type} {separator : Token} {text : String} {form : α → String}
    {tokens : α → List Token} (isSeparator : text.toList = separator.written) (items : List α)
    (each : ∀ item ∈ items, (form item).toList = writtenAll (tokens item)) :
    (Text.joinWith text (items.map form)).toList =
      writtenAll (separated separator (items.map tokens)) := by
  induction items with
  | nil => rfl
  | cons item rest inductionHypothesis =>
      have isItem := each item (List.mem_cons_self ..)
      have areRest := inductionHypothesis fun other member =>
        each other (List.mem_cons_of_mem _ member)
      cases rest with
      | nil => simp [Text.joinWith, separated, isItem]
      | cons next rest =>
          simp only [List.map_cons] at areRest
          simp only [List.map_cons, Text.joinWith, String.toList_append, isItem, isSeparator,
            areRest]
          simp only [separated, List.flatMap_cons, List.cons_append, writtenAll_append,
            writtenAll_cons, List.append_assoc]

end Token

open Token (writtenAll)

theorem toList_joinWith_names (names : List String) :
    (Text.joinWith "." names).toList = writtenAll (nameTokens names) := by
  have isSeparator : ".".toList = Token.dot.written := rfl
  have joined : (Text.joinWith "." (names.map id)).toList = writtenAll (nameTokens names) :=
    Token.toList_joinWith isSeparator names fun name _ => by simp [Token.written]
  rwa [List.map_id] at joined

theorem toList_printPath (path : List PathStep) :
    (printPath path).toList = writtenAll (pathTokens path) := by
  have isSeparator : ".".toList = Token.dot.written := rfl
  refine Token.toList_joinWith isSeparator path fun step _ => ?_
  rw [PathStep.text, PathStep.tokens]
  split <;> simp [Token.written]

theorem Identifier.toList_print (identifier : Identifier) :
    identifier.print.toList = writtenAll identifier.tokens := by
  cases identifier with
  | name text => simp [print, tokens, Token.written]
  | dotted names => exact toList_joinWith_names names
  | qualified ns text => simp [print, tokens, Token.written]

theorem Literal.toList_print (literal : Literal) :
    literal.print.toList = writtenAll literal.tokens := by
  cases literal with
  | symbol text => simp [print, tokens, Token.written]
  | quoted text => simp [print, tokens, Token.written]
  | dotted names => exact toList_joinWith_names names
  | qualified ns name => simp [print, tokens, Token.written]

theorem toList_printLiterals (literals : List Literal) :
    (Text.joinWith "," (literals.map Literal.print)).toList =
      writtenAll (literalTokens literals) := by
  have isSeparator : ",".toList = Token.comma.written := rfl
  exact Token.toList_joinWith isSeparator literals fun literal _ => literal.toList_print

namespace Condition

theorem printTerms_eq (connective : String) (terms : List Condition) :
    printTerms connective terms =
      Text.joinWith connective (terms.map fun term => "(" ++ term.print ++ ")") := by
  induction terms with
  | nil => rfl
  | cons term rest inductionHypothesis =>
      cases rest with
      | nil => rfl
      | cons next rest => rw [printTerms, inductionHypothesis]; rfl

theorem toList_printTerms {connective : Token} {text : String} {terms : List Condition}
    (isConnective : text.toList = connective.written)
    (each : ∀ term ∈ terms, term.print.toList = writtenAll term.tokens) :
    (printTerms text terms).toList = writtenAll (connective.separated (groups terms)) := by
  rw [printTerms_eq, groups_eq]
  refine Token.toList_joinWith isConnective terms fun term member => ?_
  simp [group, Token.written, each term member]

/-- A condition is written as its tokens, one behind the other. -/
theorem toList_print {condition : Condition} (wellFormed : condition.WellFormed) :
    condition.print.toList = writtenAll condition.tokens := by
  induction wellFormed with
  | any _ _ each => exact toList_printTerms rfl each
  | all _ _ each => exact toList_printTerms rfl each
  | negation _ inner => simp [print, tokens, inner, Token.written]
  | predicate _ => exact Identifier.toList_print _
  | relation _ _ =>
      rw [print, tokens]
      simp [toList_printPath, toList_printLiterals, Token.written]
  | application mode _ _ inner =>
      rw [print, tokens]
      cases mode <;>
        simp [toList_printPath, inner, Token.written, MatchMode.text, MatchMode.token]

end Condition

/-! ## Tokens that stay apart -/

namespace Token

/-- No two symbols and no two operators meet. -/
def Chained (tokens : List Token) : Prop :=
  tokens.IsChain fun left right => left.apart right = true

/-- Neither a symbol nor an operator: it stays apart from every token. -/
def isMark (token : Token) : Bool := !token.isSymbol && !token.isOperator

theorem isMark_iff {token : Token} :
    token.isMark = true ↔ token.isSymbol = false ∧ token.isOperator = false := by
  simp [isMark]

theorem apart_of_isMark_left {mark : Token} (isMark : mark.isMark = true) (token : Token) :
    mark.apart token = true := by
  simp [apart, isMark_iff.mp isMark]

theorem apart_of_isMark_right {mark : Token} (isMark : mark.isMark = true) (token : Token) :
    token.apart mark = true := by
  simp [apart, isMark_iff.mp isMark]

theorem Chained.mark_cons {mark : Token} {tokens : List Token} (chained : Chained tokens)
    (isMark : mark.isMark = true) : Chained (mark :: tokens) := by
  cases tokens with
  | nil => exact .singleton _
  | cons token rest =>
      exact List.isChain_cons_cons.mpr ⟨apart_of_isMark_left isMark token, chained⟩

theorem Chained.append_mark {mark : Token} {tokens : List Token} (chained : Chained tokens)
    (isMark : mark.isMark = true) : Chained (tokens ++ [mark]) := by
  refine List.isChain_append.mpr ⟨chained, .singleton _, fun token _ next isNext => ?_⟩
  obtain rfl : mark = next := Option.some.inj isNext
  exact apart_of_isMark_right isMark token

theorem separated_cons_cons (separator : Token) (piece next : List Token)
    (rest : List (List Token)) :
    separated separator (piece :: next :: rest) =
      piece ++ separator :: separated separator (next :: rest) := by
  simp [separated]

/-- Pieces stay apart if each one does between two separators. -/
theorem chained_separated {separator : Token} {pieces : List (List Token)}
    (each : ∀ piece ∈ pieces, Chained (separator :: (piece ++ [separator]))) :
    Chained (separated separator pieces) := by
  cases pieces with
  | nil => exact .nil
  | cons piece pieces =>
      have enclosed :
          Chained (separator :: (separated separator (piece :: pieces) ++ [separator])) := by
        induction pieces generalizing piece with
        | nil => simpa [separated] using each
        | cons next rest inductionHypothesis =>
            have isPiece := each piece (List.mem_cons_self ..)
            have isRest := inductionHypothesis next fun other member =>
              each other (List.mem_cons_of_mem _ member)
            rw [separated_cons_cons, List.append_assoc, List.cons_append, ← List.cons_append]
            exact List.isChain_split.mpr ⟨isPiece, isRest⟩
      exact enclosed.tail.left_of_append

theorem isSymbol_of_isOperator {operator : Token} (isOperator : operator.isOperator = true) :
    operator.isSymbol = false := by
  cases operator <;> first | rfl | cases isOperator

theorem mem_separated {separator token : Token} {pieces : List (List Token)}
    (member : token ∈ separated separator pieces) :
    token = separator ∨ ∃ piece ∈ pieces, token ∈ piece := by
  cases pieces with
  | nil => cases member
  | cons piece pieces =>
      rw [separated, List.mem_append, List.mem_flatMap] at member
      rcases member with inPiece | ⟨other, isOther, inOther⟩
      · exact .inr ⟨piece, List.mem_cons_self .., inPiece⟩
      · rcases List.mem_cons.mp inOther with rfl | inOther
        · exact .inl rfl
        · exact .inr ⟨other, List.mem_cons_of_mem _ isOther, inOther⟩

/-- Tokens that stay apart, and no operator among them. -/
structure Plain (tokens : List Token) : Prop where
  chained : Chained tokens
  notOperator : ∀ token ∈ tokens, token.isOperator = false

theorem plain_singleton {token : Token} (notOperator : token.isOperator = false) :
    Plain [token] :=
  ⟨.singleton _, fun _ member => List.mem_singleton.mp member ▸ notOperator⟩

theorem Plain.mark_cons {mark : Token} {tokens : List Token} (plain : Plain tokens)
    (isMark : mark.isMark = true) : Plain (mark :: tokens) :=
  ⟨plain.chained.mark_cons isMark,
    List.forall_mem_cons.mpr ⟨(isMark_iff.mp isMark).2, plain.notOperator⟩⟩

theorem plain_separated {mark : Token} {pieces : List (List Token)}
    (isMark : mark.isMark = true) (each : ∀ piece ∈ pieces, Plain piece) :
    Plain (separated mark pieces) := by
  refine ⟨chained_separated fun piece member =>
    ((each piece member).chained.append_mark isMark).mark_cons isMark, fun token member => ?_⟩
  rcases mem_separated member with rfl | ⟨piece, isPiece, inPiece⟩
  · exact (isMark_iff.mp isMark).2
  · exact (each piece isPiece).notOperator token inPiece

theorem Plain.chained_behind {operator : Token} {tokens : List Token} (plain : Plain tokens)
    (isOperator : operator.isOperator = true) : Chained (operator :: tokens) := by
  cases tokens with
  | nil => exact .singleton _
  | cons token rest =>
      refine List.isChain_cons_cons.mpr ⟨?_, plain.chained⟩
      simp [apart, isSymbol_of_isOperator isOperator,
        plain.notOperator token (List.mem_cons_self ..)]

/-- An operator stays apart from tokens without operators. -/
theorem Plain.chained_append {operator : Token} {tokens others : List Token}
    (plain : Plain tokens) (isOperator : operator.isOperator = true)
    (behind : Chained (operator :: others)) : Chained (tokens ++ operator :: others) := by
  refine List.isChain_split.mpr ⟨?_, behind⟩
  refine List.isChain_append.mpr ⟨plain.chained, .singleton _, fun token isLast next isNext => ?_⟩
  obtain rfl : operator = next := Option.some.inj isNext
  simp [apart, isSymbol_of_isOperator isOperator,
    plain.notOperator token (List.mem_of_getLast? isLast)]

end Token

open Token (Chained Plain plain_singleton plain_separated)

theorem plain_nameTokens (names : List String) : Plain (nameTokens names) :=
  plain_separated rfl fun piece member => by
    obtain ⟨name, -, rfl⟩ := List.mem_map.mp member
    exact plain_singleton rfl

theorem plain_qualified (ns name : String) : Plain [.symbol ns, .colon, .symbol name] := by
  have joined : Plain (Token.separated .colon [[.symbol ns], [.symbol name]]) :=
    plain_separated rfl fun piece member => by
      simp only [List.mem_cons, List.not_mem_nil, or_false] at member
      rcases member with rfl | rfl <;> exact plain_singleton rfl
  exact joined

theorem plain_pathTokens (path : List PathStep) : Plain (pathTokens path) :=
  plain_separated rfl fun piece member => by
    obtain ⟨step, -, rfl⟩ := List.mem_map.mp member
    rw [PathStep.tokens]
    split
    · exact (plain_singleton rfl).mark_cons rfl
    · exact plain_singleton rfl

theorem Identifier.plain_tokens (identifier : Identifier) : Plain identifier.tokens := by
  cases identifier with
  | name text => exact plain_singleton rfl
  | dotted names => exact plain_nameTokens names
  | qualified ns text => exact plain_qualified ns text

theorem plain_literalTokens (literals : List Literal) : Plain (literalTokens literals) :=
  plain_separated rfl fun piece member => by
    obtain ⟨literal, -, rfl⟩ := List.mem_map.mp member
    cases literal with
    | symbol text => exact plain_singleton rfl
    | quoted text => exact plain_singleton rfl
    | dotted names => exact plain_nameTokens names
    | qualified ns name => exact plain_qualified ns name

namespace Condition

theorem chained_group {term : Condition} (chained : Chained term.tokens) (before after : Token) :
    Chained (before :: (group term ++ [after])) := by
  have closed : Chained (.closeParen :: [after]) := Chained.mark_cons (.singleton _) rfl
  have inner : Chained (term.tokens ++ .closeParen :: [after]) :=
    List.isChain_split.mpr ⟨chained.append_mark rfl, closed⟩
  rw [group, List.cons_append, List.append_assoc]
  exact List.isChain_cons_cons.mpr ⟨Token.apart_of_isMark_right rfl before, inner.mark_cons rfl⟩

theorem chained_groups {connective : Token} {terms : List Condition}
    (each : ∀ term ∈ terms, Chained term.tokens) :
    Chained (connective.separated (groups terms)) := by
  rw [groups_eq]
  refine Token.chained_separated fun piece member => ?_
  obtain ⟨term, isTerm, rfl⟩ := List.mem_map.mp member
  exact chained_group (each term isTerm) connective connective

/-- The tokens of a condition stay apart. -/
theorem chained_tokens {condition : Condition} (wellFormed : condition.WellFormed) :
    Chained condition.tokens := by
  induction wellFormed with
  | any _ _ each => exact chained_groups each
  | all _ _ each => exact chained_groups each
  | @negation term _ inner =>
      have enclosed : Chained ((.bang :: group term) ++ [.closeParen]) :=
        chained_group inner .bang .closeParen
      exact enclosed.left_of_append
  | predicate _ => exact (Identifier.plain_tokens _).chained
  | relation _ _ =>
      rw [tokens]
      exact (plain_pathTokens _).chained_append rfl ((plain_literalTokens _).chained_behind rfl)
  | @application path mode body _ _ inner =>
      have enclosed := chained_group inner .openBrace .closeBrace
      have behind : Chained (mode.token :: .openBrace :: (group body ++ [.closeBrace])) :=
        List.isChain_cons_cons.mpr ⟨Token.apart_of_isMark_right rfl mode.token, enclosed⟩
      rw [tokens]
      exact (plain_pathTokens _).chained_append (by cases mode <;> rfl) behind

end Condition

/-! ## Legible tokens -/

namespace Token

def LegibleAll (tokens : List Token) : Prop := ∀ token ∈ tokens, token.Legible

theorem legibleAll_append {tokens others : List Token} :
    LegibleAll (tokens ++ others) ↔ LegibleAll tokens ∧ LegibleAll others :=
  List.forall_mem_append

theorem legibleAll_cons {token : Token} {rest : List Token} :
    LegibleAll (token :: rest) ↔ token.Legible ∧ LegibleAll rest :=
  List.forall_mem_cons

theorem legibleAll_singleton {token : Token} (legible : token.Legible) : LegibleAll [token] :=
  fun _ member => List.mem_singleton.mp member ▸ legible

theorem legibleAll_separated {separator : Token} {pieces : List (List Token)}
    (legible : separator.Legible) (each : ∀ piece ∈ pieces, LegibleAll piece) :
    LegibleAll (separated separator pieces) := by
  intro token member
  rcases mem_separated member with rfl | ⟨piece, isPiece, inPiece⟩
  · exact legible
  · exact each piece isPiece token inPiece

end Token

open Token (LegibleAll legibleAll_append legibleAll_cons legibleAll_singleton legibleAll_separated)

theorem legibleAll_nameTokens {names : List String} (symbols : ∀ name ∈ names, IsSymbol name) :
    LegibleAll (nameTokens names) :=
  legibleAll_separated trivial fun piece member => by
    obtain ⟨name, isName, rfl⟩ := List.mem_map.mp member
    exact legibleAll_singleton (symbols name isName)

theorem legibleAll_qualified {ns name : String} (isNamespace : IsSymbol ns)
    (isName : IsSymbol name) : LegibleAll [.symbol ns, .colon, .symbol name] :=
  legibleAll_cons.mpr ⟨isNamespace, legibleAll_cons.mpr ⟨trivial, legibleAll_singleton isName⟩⟩

theorem legibleAll_pathTokens {path : List PathStep} (steps : PathWellFormed path) :
    LegibleAll (pathTokens path) :=
  legibleAll_separated trivial fun piece member => by
    obtain ⟨step, isStep, rfl⟩ := List.mem_map.mp member
    have isName : LegibleAll [.symbol step.name] := legibleAll_singleton (steps.2 step isStep)
    rw [PathStep.tokens]
    split
    · exact legibleAll_cons.mpr ⟨trivial, isName⟩
    · exact isName

theorem Identifier.WellFormed.legibleAll {identifier : Identifier}
    (wellFormed : identifier.WellFormed) : LegibleAll identifier.tokens := by
  cases identifier with
  | name text => exact legibleAll_singleton wellFormed
  | dotted names => exact legibleAll_nameTokens wellFormed.2
  | qualified ns text => exact legibleAll_qualified wellFormed.1 wellFormed.2

theorem Literal.WellFormed.legibleAll {literal : Literal} (wellFormed : literal.WellFormed) :
    LegibleAll literal.tokens := by
  cases literal with
  | symbol text => exact legibleAll_singleton wellFormed
  | quoted text => exact legibleAll_singleton trivial
  | dotted names => exact legibleAll_nameTokens wellFormed.2
  | qualified ns name => exact legibleAll_qualified wellFormed.1 wellFormed.2

theorem legibleAll_literalTokens {literals : List Literal}
    (each : ∀ literal ∈ literals, literal.WellFormed) : LegibleAll (literalTokens literals) :=
  legibleAll_separated trivial fun piece member => by
    obtain ⟨literal, isLiteral, rfl⟩ := List.mem_map.mp member
    exact (each literal isLiteral).legibleAll

namespace Condition

theorem legibleAll_group {term : Condition} (legible : LegibleAll term.tokens) :
    LegibleAll (group term) :=
  legibleAll_cons.mpr ⟨trivial, legibleAll_append.mpr ⟨legible, legibleAll_singleton trivial⟩⟩

theorem legibleAll_groups {connective : Token} {terms : List Condition}
    (legible : connective.Legible) (each : ∀ term ∈ terms, LegibleAll term.tokens) :
    LegibleAll (connective.separated (groups terms)) := by
  rw [groups_eq]
  refine legibleAll_separated legible fun piece member => ?_
  obtain ⟨term, isTerm, rfl⟩ := List.mem_map.mp member
  exact legibleAll_group (each term isTerm)

theorem WellFormed.legibleAll {condition : Condition} (wellFormed : condition.WellFormed) :
    LegibleAll condition.tokens := by
  induction wellFormed with
  | any _ _ each => exact legibleAll_groups trivial each
  | all _ _ each => exact legibleAll_groups trivial each
  | negation _ inner => exact legibleAll_cons.mpr ⟨trivial, legibleAll_group inner⟩
  | predicate names => exact Identifier.WellFormed.legibleAll names
  | relation steps operands =>
      rw [tokens]
      exact legibleAll_append.mpr ⟨legibleAll_pathTokens steps,
        legibleAll_cons.mpr ⟨trivial, legibleAll_literalTokens operands.2.2⟩⟩
  | application mode steps _ inner =>
      have isMode : mode.token.Legible := by cases mode <;> trivial
      have isBrace : LegibleAll [.closeBrace] := legibleAll_singleton trivial
      have enclosed := legibleAll_append.mpr ⟨legibleAll_group inner, isBrace⟩
      rw [tokens]
      exact legibleAll_append.mpr ⟨legibleAll_pathTokens steps,
        legibleAll_cons.mpr ⟨isMode, legibleAll_cons.mpr ⟨trivial, enclosed⟩⟩⟩

/-- The written form of a condition is scanned as its tokens. -/
theorem scanAll_print {condition : Condition} (wellFormed : condition.WellFormed) :
    ∃ placed, Token.scanAll condition.print.toList = .ok placed ∧
      placed.map PlacedToken.token = condition.tokens := by
  rw [toList_print wellFormed]
  exact Token.scansTo_written wellFormed.legibleAll (chained_tokens wellFormed) _ 0 (Nat.le_refl _)

end Condition

end LifecycleGraph
