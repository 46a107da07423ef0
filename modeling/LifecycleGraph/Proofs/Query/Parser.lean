import LifecycleGraph.Proofs.Change
import LifecycleGraph.Query.Parser

/-!
# What the parser yields

A condition that was read from a text is well formed: there are at least two
terms to join wherever terms are joined, paths and right-hand sides are not
empty, only a test for equality has several right-hand sides, and names are
made of the characters of symbols.  The tokens of a text bring the symbols, and
each stage of the parser passes on what it leaves of them.
-/

set_option autoImplicit false

namespace LifecycleGraph

/-! ## Well-formed conditions -/

/-- A text that is one symbol. -/
def IsSymbol (text : String) : Prop := text ≠ "" ∧ text.toList.all isSymbolChar = true

instance (text : String) : Decidable (IsSymbol text) :=
  inferInstanceAs (Decidable (text ≠ "" ∧ text.toList.all isSymbolChar = true))

def Identifier.WellFormed : Identifier → Prop
  | .name text => IsSymbol text
  | .dotted names => 2 ≤ names.length ∧ ∀ text ∈ names, IsSymbol text
  | .qualified ns text => IsSymbol ns ∧ IsSymbol text

def Literal.WellFormed : Literal → Prop
  | .symbol text => IsSymbol text
  | .quoted _ => True
  | .dotted names => 2 ≤ names.length ∧ ∀ name ∈ names, IsSymbol name
  | .qualified ns name => IsSymbol ns ∧ IsSymbol name

/-- A path has a step, and steps go along symbols. -/
def PathWellFormed (path : List PathStep) : Prop :=
  path ≠ [] ∧ ∀ step ∈ path, IsSymbol step.name

/-- A comparison has a right-hand side, and several only if it tests for
equality. -/
def Comparison.Takes (comparison : Comparison) (literals : List Literal) : Prop :=
  literals ≠ [] ∧ (comparison.isEquality = false → literals.length = 1) ∧
    ∀ literal ∈ literals, literal.WellFormed

namespace Condition

inductive WellFormed : Condition → Prop where
  | any {terms : List Condition} (several : 2 ≤ terms.length)
      (each : ∀ term ∈ terms, WellFormed term) : WellFormed (.any terms)
  | all {terms : List Condition} (several : 2 ≤ terms.length)
      (each : ∀ term ∈ terms, WellFormed term) : WellFormed (.all terms)
  | negation {term : Condition} (inner : WellFormed term) : WellFormed (.negation term)
  | predicate {identifier : Identifier} (names : identifier.WellFormed) :
      WellFormed (.predicate identifier)
  | relation {path : List PathStep} {relation : Relation} {literals : List Literal}
      (steps : PathWellFormed path) (operands : relation.comparison.Takes literals) :
      WellFormed (.relation path relation literals)
  | application {path : List PathStep} (mode : MatchMode) {body : Condition}
      (steps : PathWellFormed path) (inner : WellFormed body) :
      WellFormed (.application path mode body)

/-- Every "or" and every "and" in a condition joins something. -/
inductive Joined : Condition → Prop where
  | any {terms : List Condition} (some : terms ≠ []) (each : ∀ term ∈ terms, Joined term) :
      Joined (.any terms)
  | all {terms : List Condition} (some : terms ≠ []) (each : ∀ term ∈ terms, Joined term) :
      Joined (.all terms)
  | negation {term : Condition} (inner : Joined term) : Joined (.negation term)
  | predicate (identifier : Identifier) : Joined (.predicate identifier)
  | relation (path : List PathStep) (relation : Relation) (literals : List Literal) :
      Joined (.relation path relation literals)
  | application (path : List PathStep) (mode : MatchMode) {body : Condition}
      (inner : Joined body) : Joined (.application path mode body)

theorem WellFormed.joined {condition : Condition} (wellFormed : condition.WellFormed) :
    condition.Joined := by
  induction wellFormed with
  | any several _ each => exact .any (List.ne_nil_of_length_pos (by omega)) each
  | all several _ each => exact .all (List.ne_nil_of_length_pos (by omega)) each
  | negation _ inner => exact .negation inner
  | predicate _ => exact .predicate _
  | relation _ _ => exact .relation ..
  | application mode _ _ inner => exact .application _ mode inner

end Condition

/-! ## The symbols of a text -/

namespace Token

/-- A symbol that is a token is the text of one. -/
def Legible : Token → Prop
  | .symbol text => IsSymbol text
  | _ => True

/-- All symbols among some tokens are. -/
def AllLegible (tokens : List PlacedToken) : Prop := ∀ placed ∈ tokens, placed.token.Legible

theorem AllLegible.rest {placed : PlacedToken} {rest : List PlacedToken}
    (legible : AllLegible (placed :: rest)) : AllLegible rest :=
  fun other member => legible other (List.mem_cons_of_mem _ member)

theorem legible_of_scanMode {mode : MatchMode} {connective token : Token}
    {rest behind : List Char} (legible : connective.Legible)
    (read : scanMode mode connective rest = (token, behind)) : token.Legible := by
  unfold scanMode at read
  split at read
  · cases read; trivial
  · cases read; exact legible

theorem legible_of_scan {position : Nat} {first : Char} {rest behind : List Char} {token : Token}
    (read : scan position first rest = .ok (token, behind)) : token.Legible := by
  unfold scan at read
  split at read
  case h_9 =>
    have isAnd : and.Legible := trivial
    exact legible_of_scanMode isAnd (Except.ok.inj read)
  case h_10 =>
    have isOr : or.Legible := trivial
    exact legible_of_scanMode isOr (Except.ok.inj read)
  case h_11 => split at read <;> cases read; trivial
  case h_12 =>
    split at read
    · cases read; trivial
    · split at read
      · cases read; trivial
      · split at read
        · rename_i isSymbol
          cases read
          refine ⟨fun empty => ?_, ?_⟩
          · rw [String.ofList_eq_empty_iff] at empty
            cases empty
          · rw [String.toList_ofList, List.all_cons, isSymbol, List.all_takeWhile]
            rfl
        · cases read
  all_goals cases read; trivial

theorem allLegible_of_scanFrom {fuel position : Nat} {text : List Char}
    {tokens : List PlacedToken} (read : scanFrom fuel position text = .ok tokens) :
    AllLegible tokens := by
  induction fuel generalizing position text tokens with
  | zero => cases text <;> cases read <;> exact fun _ member => by cases member
  | succ fuel inductionHypothesis =>
      cases text with
      | nil =>
          cases read
          exact fun _ member => by cases member
      | cons first rest =>
          rw [scanFrom] at read
          split at read
          · exact inductionHypothesis read
          · obtain ⟨⟨token, behind⟩, isToken, read⟩ := exists_of_bind_eq_ok read
            obtain ⟨others, areOthers, read⟩ := exists_of_bind_eq_ok read
            cases read
            intro placed member
            rcases List.mem_cons.mp member with rfl | inOthers
            · exact legible_of_scan isToken
            · exact inductionHypothesis areOthers placed inOthers

end Token

/-! ## The stages of the parser -/

namespace Condition

open Token (AllLegible)

/-- What a stage of the parser yields is of a kind, and the tokens that it
leaves are legible. -/
def Yields {α : Type} (stage : Except SyntaxFault (Parsed α)) (kind : α → Prop) : Prop :=
  ∀ parsed, stage = .ok parsed → kind parsed.value ∧ AllLegible parsed.rest

section Yields

variable {α β : Type} {kind : α → Prop} {kind' : β → Prop}

theorem yields_ok {value : α} {rest : List PlacedToken} (isKind : kind value)
    (legible : AllLegible rest) : Yields (.ok ⟨value, rest⟩) kind := by
  intro parsed read
  cases read
  exact ⟨isKind, legible⟩

theorem yields_error {fault : SyntaxFault} : Yields (.error fault) kind :=
  fun _ read => by cases read

theorem yields_bind {first : Except SyntaxFault (Parsed α)}
    {second : Parsed α → Except SyntaxFault (Parsed β)} (isFirst : Yields first kind)
    (isSecond : ∀ value rest, kind value → AllLegible rest → Yields (second ⟨value, rest⟩) kind') :
    Yields (first >>= second) kind' := by
  intro parsed read
  obtain ⟨⟨value, rest⟩, isValue, read⟩ := exists_of_bind_eq_ok read
  obtain ⟨isKind, legible⟩ := isFirst _ isValue
  exact isSecond value rest isKind legible parsed read

theorem yields_parseSymbol {length : Nat} {expected : Expectation} {tokens : List PlacedToken}
    (legible : AllLegible tokens) : Yields (parseSymbol length expected tokens) IsSymbol := by
  unfold parseSymbol
  split
  · exact yields_ok (legible _ (List.mem_cons_self ..)) legible.rest
  · exact yields_error

theorem yields_parseStep {length : Nat} {tokens : List PlacedToken}
    (legible : AllLegible tokens) :
    Yields (parseStep length tokens) fun step => IsSymbol step.name := by
  unfold parseStep
  split
  · exact yields_bind (yields_parseSymbol legible.rest) fun _ _ isName left => yields_ok isName left
  · exact yields_bind (yields_parseSymbol legible) fun _ _ isName left => yields_ok isName left

theorem yields_parseSteps {length fuel : Nat} {tokens : List PlacedToken}
    (legible : AllLegible tokens) :
    Yields (parseSteps length fuel tokens) fun steps => ∀ step ∈ steps, IsSymbol step.name := by
  induction fuel generalizing tokens with
  | zero => exact yields_ok (fun _ member => by cases member) legible
  | succ fuel inductionHypothesis =>
      unfold parseSteps
      split
      · rename_i isFuel
        cases isFuel
        refine yields_bind (yields_parseStep legible.rest) fun step rest isStep left => ?_
        refine yields_bind (inductionHypothesis left) fun steps _ areSteps => yields_ok ?_
        exact List.forall_mem_cons.mpr ⟨isStep, areSteps⟩
      · exact yields_ok (fun _ member => by cases member) legible

theorem yields_parsePath {length : Nat} {tokens : List PlacedToken}
    (legible : AllLegible tokens) : Yields (parsePath length tokens) PathWellFormed := by
  refine yields_bind (yields_parseStep legible) fun step rest isStep left => ?_
  refine yields_bind (yields_parseSteps left) fun steps _ areSteps => yields_ok ?_
  exact ⟨List.cons_ne_nil _ _, List.forall_mem_cons.mpr ⟨isStep, areSteps⟩⟩

theorem yields_parseNames {length fuel : Nat} {tokens : List PlacedToken}
    (legible : AllLegible tokens) :
    Yields (parseNames length fuel tokens) fun names => ∀ name ∈ names, IsSymbol name := by
  induction fuel generalizing tokens with
  | zero => exact yields_ok (fun _ member => by cases member) legible
  | succ fuel inductionHypothesis =>
      unfold parseNames
      split
      · rename_i isFuel
        cases isFuel
        refine yields_bind (yields_parseSymbol legible.rest) fun name rest isName left => ?_
        refine yields_bind (inductionHypothesis left) fun names _ areNames => yields_ok ?_
        exact List.forall_mem_cons.mpr ⟨isName, areNames⟩
      · exact yields_ok (fun _ member => by cases member) legible

theorem yields_parseLiteral {length : Nat} {tokens : List PlacedToken}
    (legible : AllLegible tokens) : Yields (parseLiteral length tokens) Literal.WellFormed := by
  unfold parseLiteral
  split
  · exact yields_ok trivial legible.rest
  · have isFirst := legible _ (List.mem_cons_self ..)
    refine yields_bind (yields_parseSymbol legible.rest.rest) fun name _ isName => ?_
    exact yields_ok ⟨isFirst, isName⟩
  · have isFirst := legible _ (List.mem_cons_self ..)
    refine yields_bind (yields_parseNames legible.rest) fun names _ areNames => yields_ok ?_
    cases names with
    | nil => exact isFirst
    | cons name names =>
        refine ⟨?_, List.forall_mem_cons.mpr ⟨isFirst, areNames⟩⟩
        simp only [List.length_cons]
        omega
  · exact yields_error

theorem yields_parseLiterals {length fuel : Nat} {tokens : List PlacedToken}
    (legible : AllLegible tokens) :
    Yields (parseLiterals length fuel tokens) fun literals =>
      ∀ literal ∈ literals, literal.WellFormed := by
  induction fuel generalizing tokens with
  | zero => exact yields_ok (fun _ member => by cases member) legible
  | succ fuel inductionHypothesis =>
      unfold parseLiterals
      split
      · rename_i isFuel
        cases isFuel
        refine yields_bind (yields_parseLiteral legible.rest) fun literal rest isLiteral left => ?_
        refine yields_bind (inductionHypothesis left) fun literals _ areLiterals => yields_ok ?_
        exact List.forall_mem_cons.mpr ⟨isLiteral, areLiterals⟩
      · exact yields_ok (fun _ member => by cases member) legible

theorem yields_parseOperands {length : Nat} {relation : Relation} {tokens : List PlacedToken}
    (legible : AllLegible tokens) :
    Yields (parseOperands length relation tokens) relation.comparison.Takes := by
  refine yields_bind (yields_parseLiteral legible) fun literal rest isLiteral left => ?_
  by_cases several : relation.comparison.isEquality = true
  · simp only [several, ↓reduceIte]
    refine yields_bind (yields_parseLiterals left) fun literals _ areLiterals => yields_ok ?_
    refine ⟨List.cons_ne_nil _ _, fun one => ?_, List.forall_mem_cons.mpr ⟨isLiteral, areLiterals⟩⟩
    rw [several] at one
    cases one
  · simp only [several, Bool.false_eq_true, ↓reduceIte]
    refine yields_ok ⟨List.cons_ne_nil _ _, fun _ => rfl, fun other member => ?_⟩ left
    rw [List.mem_singleton.mp member]
    exact isLiteral

end Yields

theorem wellFormed_ofPath? {leadingDot : Bool} {path : List PathStep} {condition : Condition}
    (steps : PathWellFormed path) (read : ofPath? leadingDot path = some condition) :
    condition.WellFormed := by
  obtain ⟨someStep, areSymbols⟩ := steps
  have names : ∀ name ∈ path.map PathStep.name, IsSymbol name := by
    intro name member
    obtain ⟨step, inPath, rfl⟩ := List.mem_map.mp member
    exact areSymbols step inPath
  rw [ofPath?] at read
  split at read
  · cases read
  · split at read
    · rename_i isOne
      cases read
      have isSymbol := names _ (isOne ▸ List.mem_singleton.mpr rfl)
      exact .predicate isSymbol
    · rename_i notOne
      cases read
      refine .predicate ⟨?_, names⟩
      match path, notOne with
      | [], _ => exact absurd rfl someStep
      | [step], notOne => exact absurd rfl (notOne step.name)
      | _ :: _ :: _, _ => simp only [List.map_cons, List.length_cons]; omega

/-- Terms are joined where there are several, and one term stands for itself. -/
theorem wellFormed_joined {join : List Condition → Condition} {term : Condition}
    {terms : List Condition}
    (joins : ∀ {terms : List Condition}, 2 ≤ terms.length → (∀ term ∈ terms, term.WellFormed) →
      (join terms).WellFormed)
    (isTerm : term.WellFormed) (areTerms : ∀ term ∈ terms, term.WellFormed) :
    (joined join (term :: terms)).WellFormed := by
  cases terms with
  | nil => exact isTerm
  | cons other terms =>
      refine joins ?_ (List.forall_mem_cons.mpr ⟨isTerm, areTerms⟩)
      simp only [List.length_cons]
      omega

/-- The stages that call each other yield well-formed conditions with some fuel. -/
structure FormsAt (length fuel : Nat) : Prop where
  any : ∀ {tokens}, AllLegible tokens → Yields (parseAny length fuel tokens) WellFormed
  moreAny : ∀ {tokens}, AllLegible tokens →
    Yields (parseMoreAny length fuel tokens) fun terms => ∀ term ∈ terms, term.WellFormed
  all : ∀ {tokens}, AllLegible tokens → Yields (parseAll length fuel tokens) WellFormed
  moreAll : ∀ {tokens}, AllLegible tokens →
    Yields (parseMoreAll length fuel tokens) fun terms => ∀ term ∈ terms, term.WellFormed
  unary : ∀ {tokens}, AllLegible tokens → Yields (parseUnary length fuel tokens) WellFormed
  single : ∀ {leadingDot tokens}, AllLegible tokens →
    Yields (parseSingle length fuel leadingDot tokens) WellFormed
  body : ∀ {path mode tokens}, PathWellFormed path → AllLegible tokens →
    Yields (parseBody length fuel path mode tokens) WellFormed

theorem formsAt_zero (length : Nat) : FormsAt length 0 where
  any _ := by unfold parseAny; exact yields_error
  moreAny legible := by
    unfold parseMoreAny
    exact yields_ok (fun _ member => by cases member) legible
  all _ := by unfold parseAll; exact yields_error
  moreAll legible := by
    unfold parseMoreAll
    exact yields_ok (fun _ member => by cases member) legible
  unary _ := by unfold parseUnary; exact yields_error
  single _ := by unfold parseSingle; exact yields_error
  body _ _ := by unfold parseBody; exact yields_error

theorem formsAt_succ {length fuel : Nat} (below : FormsAt length fuel) :
    FormsAt length (fuel + 1) where
  any legible := by
    rw [parseAny]
    refine yields_bind (below.all legible) fun term rest isTerm left => ?_
    refine yields_bind (below.moreAny left) fun terms _ areTerms => yields_ok ?_
    exact wellFormed_joined .any isTerm areTerms
  moreAny legible := by
    rw [parseMoreAny.eq_def]
    split
    · rename_i isFuel
      cases isFuel
      refine yields_bind (below.all legible.rest) fun term rest isTerm left => ?_
      refine yields_bind (below.moreAny left) fun terms _ areTerms => yields_ok ?_
      exact List.forall_mem_cons.mpr ⟨isTerm, areTerms⟩
    · exact yields_ok (fun _ member => by cases member) legible
  all legible := by
    rw [parseAll]
    refine yields_bind (below.unary legible) fun term rest isTerm left => ?_
    refine yields_bind (below.moreAll left) fun terms _ areTerms => yields_ok ?_
    exact wellFormed_joined .all isTerm areTerms
  moreAll legible := by
    rw [parseMoreAll.eq_def]
    split
    · rename_i isFuel
      cases isFuel
      refine yields_bind (below.unary legible.rest) fun term rest isTerm left => ?_
      refine yields_bind (below.moreAll left) fun terms _ areTerms => yields_ok ?_
      exact List.forall_mem_cons.mpr ⟨isTerm, areTerms⟩
    · exact yields_ok (fun _ member => by cases member) legible
  unary legible := by
    rw [parseUnary.eq_def]
    split
    · exact yields_error
    · rename_i isFuel
      cases isFuel
      exact yields_bind (below.unary legible.rest) fun _ _ isTerm => yields_ok (.negation isTerm)
    · rename_i isFuel
      cases isFuel
      refine yields_bind (below.any legible.rest) fun term rest isTerm left => ?_
      simp only
      split
      · exact yields_ok isTerm left.rest
      · exact yields_error
    · have isNamespace := legible _ (List.mem_cons_self ..)
      refine yields_bind (yields_parseSymbol legible.rest.rest) fun name _ isName => yields_ok ?_
      exact .predicate ⟨isNamespace, isName⟩
    · rename_i isFuel
      cases isFuel
      exact below.single legible.rest
    · rename_i isFuel _ _ _ _
      cases isFuel
      exact below.single legible
  single legible := by
    rw [parseSingle]
    refine yields_bind (yields_parsePath legible) fun path rest steps left => ?_
    simp only
    split
    · refine yields_bind (yields_parseOperands left.rest) fun literals _ operands => yields_ok ?_
      exact .relation steps operands
    · exact below.body steps left.rest
    · exact below.body steps left.rest.rest
    · exact below.body steps left.rest.rest
    · split
      · rename_i condition isCondition
        exact yields_ok (wellFormed_ofPath? steps isCondition) left
      · exact yields_error
  body steps legible := by
    rw [parseBody]
    refine yields_bind (below.any legible) fun term rest isTerm left => ?_
    simp only
    split
    · exact yields_ok (.application _ steps isTerm) left.rest
    · exact yields_error

theorem formsAt (length fuel : Nat) : FormsAt length fuel := by
  induction fuel with
  | zero => exact formsAt_zero length
  | succ fuel inductionHypothesis => exact formsAt_succ inductionHypothesis

theorem wellFormed_of_parseTerms {length fuel : Nat} {tokens : List PlacedToken}
    {terms : List Condition} (legible : AllLegible tokens)
    (read : parseTerms length fuel tokens = .ok terms) : ∀ term ∈ terms, term.WellFormed := by
  induction fuel generalizing tokens terms with
  | zero =>
      cases tokens <;> cases read <;> exact fun _ member => by cases member
  | succ fuel inductionHypothesis =>
      cases tokens with
      | nil =>
          cases read
          exact fun _ member => by cases member
      | cons token rest =>
          rw [parseTerms] at read
          obtain ⟨⟨term, behind⟩, isTerm, read⟩ := exists_of_bind_eq_ok read
          obtain ⟨others, areOthers, read⟩ := exists_of_bind_eq_ok read
          cases read
          obtain ⟨wellFormed, left⟩ := (formsAt length _).any legible _ isTerm
          exact List.forall_mem_cons.mpr ⟨wellFormed, inductionHypothesis left areOthers⟩

/-- Every condition that is read from a text is well formed. -/
theorem wellFormed_of_parse {text : String} {condition : Condition}
    (read : parse text = .ok (some condition)) : condition.WellFormed := by
  rw [parse] at read
  obtain ⟨tokens, areTokens, read⟩ := exists_of_bind_eq_ok read
  obtain ⟨terms, areTerms, read⟩ := exists_of_bind_eq_ok read
  have each := wellFormed_of_parseTerms (Token.allLegible_of_scanFrom areTokens) areTerms
  match terms with
  | [] => cases read
  | [_] =>
      cases read
      exact each _ (List.mem_singleton.mpr rfl)
  | _ :: _ :: _ =>
      cases read
      refine .any ?_ each
      simp only [List.length_cons]
      omega

/-- Every condition that is read from a text joins something everywhere. -/
theorem joined_of_parse {text : String} {condition : Condition}
    (read : parse text = .ok (some condition)) : condition.Joined :=
  (wellFormed_of_parse read).joined

end Condition

end LifecycleGraph
