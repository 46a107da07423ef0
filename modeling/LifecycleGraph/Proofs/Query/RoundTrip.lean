import Mathlib
import LifecycleGraph.Proofs.Query.Printer

/-!
# Conditions that are written and read again

The parser takes the tokens of a well-formed condition back one piece after the
other: each piece is followed by a mark that ends it.  So a condition is read
again from its written form, and the well-formed conditions are all that can be
read from a text.
-/

set_option autoImplicit false

namespace LifecycleGraph

/-! ## Placed tokens -/

/-- Some tokens, wherever they are placed, are followed by a rest. -/
def Spells (placed : List PlacedToken) (tokens : List Token) (rest : List PlacedToken) : Prop :=
  ∃ front, placed = front ++ rest ∧ front.map PlacedToken.token = tokens

theorem spells_nil_iff {placed rest : List PlacedToken} :
    Spells placed [] rest ↔ placed = rest := by
  constructor
  · rintro ⟨front, rfl, isEmpty⟩
    rw [List.map_eq_nil_iff.mp isEmpty, List.nil_append]
  · rintro rfl
    exact ⟨[], rfl, rfl⟩

theorem spells_cons_iff {placed rest : List PlacedToken} {token : Token} {tokens : List Token} :
    Spells placed (token :: tokens) rest ↔
      ∃ position behind, placed = ⟨position, token⟩ :: behind ∧ Spells behind tokens rest := by
  constructor
  · rintro ⟨front, rfl, areTokens⟩
    obtain ⟨⟨position, _⟩, others, rfl, rfl, rfl⟩ := List.map_eq_cons_iff.mp areTokens
    exact ⟨position, others ++ rest, rfl, others, rfl, rfl⟩
  · rintro ⟨position, _, rfl, front, rfl, rfl⟩
    exact ⟨⟨position, token⟩ :: front, rfl, rfl⟩

theorem spells_append_iff {placed rest : List PlacedToken} {tokens others : List Token} :
    Spells placed (tokens ++ others) rest ↔
      ∃ middle, Spells placed tokens middle ∧ Spells middle others rest := by
  constructor
  · rintro ⟨front, rfl, areTokens⟩
    obtain ⟨first, second, rfl, rfl, rfl⟩ := List.map_eq_append_iff.mp areTokens
    exact ⟨second ++ rest, ⟨first, List.append_assoc .., rfl⟩, second, rfl, rfl⟩
  · rintro ⟨_, ⟨first, rfl, rfl⟩, second, rfl, rfl⟩
    exact ⟨first ++ second, (List.append_assoc ..).symm, List.map_append⟩

theorem Spells.length_eq {placed rest : List PlacedToken} {tokens : List Token}
    (spells : Spells placed tokens rest) : placed.length = tokens.length + rest.length := by
  obtain ⟨front, rfl, rfl⟩ := spells
  rw [List.length_append, List.length_map]

/-- A rest does not go on with a token. -/
def Without (token : Token) (rest : List PlacedToken) : Prop :=
  ∀ placed ∈ rest.head?, placed.token ≠ token

theorem without_cons {token other : Token} (different : other ≠ token) {position : Nat}
    {rest : List PlacedToken} : Without token (⟨position, other⟩ :: rest) := by
  rintro placed isFirst
  cases isFirst
  exact different

namespace Condition

/-! ## Stages that read pieces -/

/-- A stage reads a value from some tokens, before any rest of a kind. -/
def Reads {α : Type} (stage : List PlacedToken → Except SyntaxFault (Parsed α))
    (tokens : List Token) (value : α) (before : List PlacedToken → Prop) : Prop :=
  ∀ ⦃placed rest⦄, Spells placed tokens rest → before rest → stage placed = .ok ⟨value, rest⟩

/-- A stage that reads several items, each behind a separator, with less and less
fuel. -/
structure Repeats {α : Type} (separator : Token)
    (item : Nat → List PlacedToken → Except SyntaxFault (Parsed α))
    (many : Nat → List PlacedToken → Except SyntaxFault (Parsed (List α))) : Prop where
  more : ∀ fuel position rest, many (fuel + 1) (⟨position, separator⟩ :: rest) =
    (item fuel rest >>= fun first =>
      many fuel first.rest >>= fun others => .ok ⟨first.value :: others.value, others.rest⟩)
  stop : ∀ fuel rest, Without separator rest → many fuel rest = .ok ⟨[], rest⟩

theorem Repeats.reads {α : Type} {separator : Token}
    {item : Nat → List PlacedToken → Except SyntaxFault (Parsed α)}
    {many : Nat → List PlacedToken → Except SyntaxFault (Parsed (List α))}
    (repeats : Repeats separator item many) {tokens : α → List Token} (need : α → Nat)
    {before : List PlacedToken → Prop}
    (separates : ∀ position rest, before (⟨position, separator⟩ :: rest))
    {items : List α} {fuel : Nat}
    (each : ∀ value ∈ items, ∀ fuel, need value ≤ fuel →
      Reads (item fuel) (tokens value) value before)
    (enough : (items.map fun value => need value + 1).sum ≤ fuel) :
    Reads (many fuel) (items.flatMap fun value => separator :: tokens value) items
      fun rest => before rest ∧ Without separator rest := by
  induction items generalizing fuel with
  | nil =>
      intro placed rest spells ends
      rw [spells_nil_iff.mp spells]
      exact repeats.stop fuel rest ends.2
  | cons value items inductionHypothesis =>
      intro placed rest spells ends
      rw [List.map_cons, List.sum_cons] at enough
      obtain ⟨fuel, rfl⟩ : ∃ less, fuel = less + 1 := ⟨fuel - 1, by omega⟩
      rw [List.flatMap_cons, List.cons_append] at spells
      obtain ⟨position, behind, rfl, areItems⟩ := spells_cons_iff.mp spells
      obtain ⟨middle, isItem, areOthers⟩ := spells_append_iff.mp areItems
      have infront : before middle := by
        cases items with
        | nil => rw [spells_nil_iff.mp areOthers]; exact ends.1
        | cons next items =>
            rw [List.flatMap_cons, List.cons_append] at areOthers
            obtain ⟨position, behind, rfl, -⟩ := spells_cons_iff.mp areOthers
            exact separates position behind
      rw [repeats.more, each value (List.mem_cons_self ..) fuel (by omega) isItem infront]
      have areRead : many fuel middle = .ok ⟨items, rest⟩ :=
        inductionHypothesis (fun other member => each other (List.mem_cons_of_mem _ member))
          (by omega) areOthers ends
      simp only [bind, Except.bind, areRead]

/-- Items that need no fuel themselves are read if there is fuel for each token. -/
theorem Repeats.reads_all {α : Type} {separator : Token}
    {item : List PlacedToken → Except SyntaxFault (Parsed α)}
    {many : Nat → List PlacedToken → Except SyntaxFault (Parsed (List α))}
    (repeats : Repeats separator (fun _ => item) many) {tokens : α → List Token}
    {before : List PlacedToken → Prop}
    (separates : ∀ position rest, before (⟨position, separator⟩ :: rest)) {items : List α}
    (each : ∀ value ∈ items, Reads item (tokens value) value before) :
    Reads (fun placed => many placed.length placed)
      (items.flatMap fun value => separator :: tokens value) items
      fun rest => before rest ∧ Without separator rest := by
  intro placed rest spells ends
  have length := spells.length_eq
  rw [List.length_flatMap] at length
  refine repeats.reads (fun value => (tokens value).length) separates
    (fun value member _ _ => each value member) ?_ spells ends
  simp only [List.length_cons] at length
  omega

section Pieces

variable {length : Nat}

theorem reads_parseSymbol (expected : Expectation) (text : String) :
    Reads (parseSymbol length expected) [.symbol text] text fun _ => True := by
  intro placed rest spells _
  obtain ⟨position, behind, rfl, isRest⟩ := spells_cons_iff.mp spells
  rw [spells_nil_iff.mp isRest]
  rfl

theorem reads_parseStep (step : PathStep) :
    Reads (parseStep length) step.tokens step fun _ => True := by
  intro placed rest spells _
  obtain ⟨reverse, name⟩ := step
  cases reverse with
  | true =>
      obtain ⟨position, behind, rfl, isName⟩ := spells_cons_iff.mp spells
      rw [parseStep, reads_parseSymbol .propertyName name isName trivial]
      rfl
  | false =>
      obtain ⟨position, behind, rfl, isRest⟩ := spells_cons_iff.mp spells
      rw [spells_nil_iff.mp isRest]
      rfl

theorem repeats_parseSteps :
    Repeats .dot (fun _ => parseStep length) (parseSteps length) where
  more _ _ _ := rfl
  stop fuel rest without := by
    rw [parseSteps.eq_def]
    split
    · exact absurd rfl (without _ rfl)
    · rfl

theorem repeats_parseNames :
    Repeats .dot (fun _ => parseSymbol length .dottedName) (parseNames length) where
  more _ _ _ := rfl
  stop fuel rest without := by
    rw [parseNames.eq_def]
    split
    · exact absurd rfl (without _ rfl)
    · rfl

theorem repeats_parseLiterals :
    Repeats .comma (fun _ => parseLiteral length) (parseLiterals length) where
  more _ _ _ := rfl
  stop fuel rest without := by
    rw [parseLiterals.eq_def]
    split
    · exact absurd rfl (without _ rfl)
    · rfl

theorem repeats_parseMoreAny : Repeats .or (parseAll length) (parseMoreAny length) where
  more fuel position rest := by rw [parseMoreAny.eq_def]
  stop fuel rest without := by
    rw [parseMoreAny.eq_def]
    split
    · exact absurd rfl (without _ rfl)
    · rfl

theorem repeats_parseMoreAll : Repeats .and (parseUnary length) (parseMoreAll length) where
  more fuel position rest := by rw [parseMoreAll.eq_def]
  stop fuel rest without := by
    rw [parseMoreAll.eq_def]
    split
    · exact absurd rfl (without _ rfl)
    · rfl

theorem reads_parsePath {path : List PathStep} (someStep : path ≠ []) :
    Reads (parsePath length) (pathTokens path) path (Without .dot) := by
  intro placed rest spells ends
  cases path with
  | nil => exact absurd rfl someStep
  | cons step steps =>
      rw [pathTokens, List.map_cons, Token.separated, List.flatMap_map] at spells
      obtain ⟨middle, isStep, areSteps⟩ := spells_append_iff.mp spells
      have areRead : parseSteps length middle.length middle = .ok ⟨steps, rest⟩ :=
        repeats_parseSteps.reads_all (fun _ _ => trivial) (fun step _ => reads_parseStep step)
          areSteps ⟨trivial, ends⟩
      rw [parsePath, reads_parseStep step isStep trivial]
      simp only [bind, Except.bind, areRead]

/-- A right-hand side ends in front of all but a dot and a colon. -/
def EndsLiteral (rest : List PlacedToken) : Prop := Without .dot rest ∧ Without .colon rest

theorem parseLiteral_of_symbol {position : Nat} {first : String} {rest : List PlacedToken}
    (without : Without .colon rest) :
    parseLiteral length (⟨position, .symbol first⟩ :: rest) =
      (parseNames length rest.length rest >>= fun names =>
        .ok ⟨if names.value.isEmpty then .symbol first else .dotted (first :: names.value),
          names.rest⟩) := by
  rw [parseLiteral.eq_def]
  split
  · cases ‹_ = _›
  · cases ‹_ = _›
    exact absurd rfl (without _ rfl)
  · cases ‹_ = _›
    rfl
  · rename_i notSymbol
    exact absurd rfl (notSymbol _ _ _)

theorem reads_parseLiteral {literal : Literal} (wellFormed : literal.WellFormed) :
    Reads (parseLiteral length) literal.tokens literal EndsLiteral := by
  intro placed rest spells ends
  cases literal with
  | symbol text =>
      obtain ⟨position, behind, rfl, isRest⟩ := spells_cons_iff.mp spells
      rw [spells_nil_iff.mp isRest, parseLiteral_of_symbol ends.2,
        repeats_parseNames.stop _ _ ends.1]
      rfl
  | quoted text =>
      obtain ⟨position, behind, rfl, isRest⟩ := spells_cons_iff.mp spells
      rw [spells_nil_iff.mp isRest]
      rfl
  | dotted names =>
      obtain ⟨several, -⟩ := wellFormed
      match names, several with
      | first :: second :: others, _ =>
          rw [Literal.tokens, nameTokens, List.map_cons, Token.separated, List.flatMap_map]
            at spells
          obtain ⟨position, behind, rfl, areNames⟩ := spells_cons_iff.mp spells
          have without : Without .colon behind := by
            obtain ⟨position, behind, rfl, -⟩ := spells_cons_iff.mp areNames
            exact without_cons (by decide)
          have areRead : parseNames length behind.length behind = .ok ⟨second :: others, rest⟩ :=
            repeats_parseNames.reads_all (fun _ _ => trivial)
              (fun name _ => reads_parseSymbol .dottedName name) areNames ⟨trivial, ends.1⟩
          rw [parseLiteral_of_symbol without, areRead]
          rfl
  | qualified ns name =>
      obtain ⟨position, behind, rfl, isRest⟩ := spells_cons_iff.mp spells
      obtain ⟨position', behind, rfl, isName⟩ := spells_cons_iff.mp isRest
      rw [parseLiteral, reads_parseSymbol .nodeName name isName trivial]
      rfl

theorem endsLiteral_of_comma (position : Nat) (rest : List PlacedToken) :
    EndsLiteral (⟨position, .comma⟩ :: rest) := by
  constructor <;> exact without_cons (by decide)

theorem reads_parseOperands {relation : Relation} {literals : List Literal}
    (operands : relation.comparison.Takes literals) :
    Reads (parseOperands length relation) (literalTokens literals) literals
      fun rest => EndsLiteral rest ∧ Without .comma rest := by
  intro placed rest spells ends
  obtain ⟨someLiteral, single, wellFormed⟩ := operands
  match literals, someLiteral with
  | literal :: others, _ =>
      rw [literalTokens, List.map_cons, Token.separated, List.flatMap_map] at spells
      obtain ⟨middle, isLiteral, areOthers⟩ := spells_append_iff.mp spells
      have endsFirst : EndsLiteral middle := by
        cases others with
        | nil => rw [spells_nil_iff.mp areOthers]; exact ends.1
        | cons next others =>
            obtain ⟨position, behind, rfl, -⟩ := spells_cons_iff.mp areOthers
            exact endsLiteral_of_comma position behind
      rw [parseOperands,
        reads_parseLiteral (wellFormed literal (List.mem_cons_self ..)) isLiteral endsFirst]
      by_cases several : relation.comparison.isEquality = true
      · have areRead : parseLiterals length middle.length middle = .ok ⟨others, rest⟩ :=
          repeats_parseLiterals.reads_all endsLiteral_of_comma
            (fun other member =>
              reads_parseLiteral (wellFormed other (List.mem_cons_of_mem _ member)))
            areOthers ends
        simp only [bind, Except.bind, several, ↓reduceIte, areRead]
      · obtain rfl : others = [] := by
          have one := single (Bool.eq_false_iff.mpr several)
          rw [List.length_cons] at one
          exact List.length_eq_zero_iff.mp (by omega)
        simp only [bind, Except.bind, several, Bool.false_eq_true, ↓reduceIte,
          spells_nil_iff.mp areOthers]

end Pieces

/-! ## Single conditions -/

/-- A condition ends with the text or in front of a closing parenthesis. -/
def Ends (rest : List PlacedToken) : Prop :=
  rest = [] ∨ ∃ position behind, rest = ⟨position, .closeParen⟩ :: behind

theorem Ends.without {rest : List PlacedToken} (ends : Ends rest) {token : Token}
    (notParen : token ≠ .closeParen) : Without token rest := by
  rintro placed isFirst
  rcases ends with rfl | ⟨position, behind, rfl⟩
  · cases isFirst
  · cases isFirst
    exact Ne.symm notParen

theorem Reads.imp {α : Type} {stage : List PlacedToken → Except SyntaxFault (Parsed α)}
    {tokens : List Token} {value : α} {before before' : List PlacedToken → Prop}
    (reads : Reads stage tokens value before) (implies : ∀ rest, before' rest → before rest) :
    Reads stage tokens value before' :=
  fun _ _ spells infront => reads spells (implies _ infront)

section Stages

variable {length fuel : Nat}

theorem parseUnary_of_symbol {position : Nat} {name : String} {rest : List PlacedToken}
    (without : Without .colon rest) :
    parseUnary length (fuel + 1) (⟨position, .symbol name⟩ :: rest) =
      parseSingle length fuel false (⟨position, .symbol name⟩ :: rest) := by
  rw [parseUnary.eq_def]
  cases rest with
  | nil => rfl
  | cons placed behind =>
      obtain ⟨position, token⟩ := placed
      cases token <;> first | rfl | exact absurd rfl (without _ rfl)

/-- A condition that starts with a path is a single one. -/
theorem parseUnary_of_path {path : List PathStep} {placed rest : List PlacedToken}
    (someStep : path ≠ []) (spells : Spells placed (pathTokens path) rest)
    (without : Without .colon rest) :
    parseUnary length (fuel + 1) placed = parseSingle length fuel false placed := by
  cases path with
  | nil => exact absurd rfl someStep
  | cons step steps =>
      obtain ⟨reverse, name⟩ := step
      rw [pathTokens, List.map_cons, Token.separated, List.flatMap_map] at spells
      cases reverse with
      | true =>
          obtain ⟨position, behind, rfl, -⟩ := spells_cons_iff.mp spells
          rw [parseUnary.eq_def]
      | false =>
          obtain ⟨position, behind, rfl, areSteps⟩ := spells_cons_iff.mp spells
          have notColon : Without .colon behind := by
            cases steps with
            | nil => rw [spells_nil_iff.mp areSteps]; exact without
            | cons next steps =>
                obtain ⟨position, behind, rfl, -⟩ := spells_cons_iff.mp areSteps
                exact without_cons (by decide)
          exact parseUnary_of_symbol notColon

/-- A path without steps back that stands alone is the predicate of its names. -/
theorem reads_parseSingle_names {names : List String} {identifier : Identifier}
    (someName : names ≠ []) (isPredicate : ofPath? false (names.map (PathStep.mk false)) =
      some (.predicate identifier)) :
    Reads (parseUnary length (fuel + 2)) (nameTokens names) (.predicate identifier) Ends := by
  intro placed rest spells ends
  have isPath : nameTokens names = pathTokens (names.map (PathStep.mk false)) := by
    rw [nameTokens, pathTokens, List.map_map]
    rfl
  have someStep : names.map (PathStep.mk false) ≠ [] := fun none =>
    someName (List.map_eq_nil_iff.mp none)
  rw [isPath] at spells
  rw [parseUnary_of_path someStep spells (ends.without (by simp)), parseSingle,
    reads_parsePath someStep spells (ends.without (by simp))]
  rcases ends with rfl | ⟨position, behind, rfl⟩ <;>
    simp only [bind, Except.bind, isPredicate]

theorem reads_predicate {identifier : Identifier} (wellFormed : identifier.WellFormed) :
    Reads (parseUnary length (fuel + 2)) identifier.tokens (.predicate identifier) Ends := by
  cases identifier with
  | name text => exact reads_parseSingle_names (List.cons_ne_nil text []) rfl
  | dotted names =>
      match names, wellFormed.1 with
      | first :: second :: others, _ =>
          refine reads_parseSingle_names (List.cons_ne_nil _ _) ?_
          simp [ofPath?, Function.comp_def]
  | qualified ns text =>
      intro placed rest spells _
      obtain ⟨position, behind, rfl, isRest⟩ := spells_cons_iff.mp spells
      obtain ⟨position', behind, rfl, isName⟩ := spells_cons_iff.mp isRest
      rw [parseUnary, reads_parseSymbol .nodeName text isName trivial]
      rfl

theorem reads_relation {path : List PathStep} {relation : Relation} {literals : List Literal}
    (steps : PathWellFormed path) (operands : relation.comparison.Takes literals) :
    Reads (parseUnary length (fuel + 2)) (tokens (.relation path relation literals))
      (.relation path relation literals) Ends := by
  intro placed rest spells ends
  rw [tokens] at spells
  obtain ⟨middle, isPath, isRelation⟩ := spells_append_iff.mp spells
  obtain ⟨position, behind, rfl, areLiterals⟩ := spells_cons_iff.mp isRelation
  have without {token : Token} (different : .relation relation ≠ token) :
      Without token (⟨position, .relation relation⟩ :: behind) := without_cons different
  have areRead : parseOperands length relation behind = .ok ⟨literals, rest⟩ :=
    reads_parseOperands operands areLiterals
      ⟨⟨ends.without (by simp), ends.without (by simp)⟩, ends.without (by simp)⟩
  rw [parseUnary_of_path steps.1 isPath (without (by simp)), parseSingle,
    reads_parsePath steps.1 isPath (without (by simp))]
  simp only [bind, Except.bind, areRead]

/-! ## Conditions inside conditions -/

/-- A connective does not follow. -/
def Unjoined (rest : List PlacedToken) : Prop := Without .and rest ∧ Without .or rest

theorem Ends.unjoined {rest : List PlacedToken} (ends : Ends rest) : Unjoined rest :=
  ⟨ends.without (by simp), ends.without (by simp)⟩

theorem reads_parseAll {tokens : List Token} {condition : Condition}
    {before : List PlacedToken → Prop}
    (reads : Reads (parseUnary length fuel) tokens condition before) :
    Reads (parseAll length (fuel + 1)) tokens condition
      fun rest => before rest ∧ Without .and rest := by
  intro placed rest spells ends
  rw [parseAll, reads spells ends.1]
  simp only [bind, Except.bind, repeats_parseMoreAll.stop fuel rest ends.2]
  rfl

theorem reads_parseAny {tokens : List Token} {condition : Condition}
    {before : List PlacedToken → Prop}
    (reads : Reads (parseAll length fuel) tokens condition before) :
    Reads (parseAny length (fuel + 1)) tokens condition
      fun rest => before rest ∧ Without .or rest := by
  intro placed rest spells ends
  rw [parseAny, reads spells ends.1]
  simp only [bind, Except.bind, repeats_parseMoreAny.stop fuel rest ends.2]
  rfl

theorem reads_single {tokens : List Token} {condition : Condition}
    (reads : Reads (parseUnary length fuel) tokens condition Ends) :
    Reads (parseAny length (fuel + 2)) tokens condition Ends :=
  (reads_parseAny (reads_parseAll reads)).imp fun _ ends =>
    ⟨⟨ends, ends.unjoined.1⟩, ends.unjoined.2⟩

end Stages

/-- With fuel for its tokens, a condition is read. -/
def ReadBack (length : Nat) (condition : Condition) : Prop :=
  ∀ fuel, 4 * condition.tokens.length + 4 ≤ fuel →
    Reads (parseAny length fuel) condition.tokens condition Ends

/-- The fuel for a condition in parentheses. -/
def groupNeed (condition : Condition) : Nat := 4 * condition.tokens.length + 6

section Groups

variable {length fuel : Nat}

theorem ReadBack.reads_group {condition : Condition} (readBack : ReadBack length condition)
    (enough : 4 * condition.tokens.length + 5 ≤ fuel) :
    Reads (parseUnary length fuel) condition.group condition fun _ => True := by
  intro placed rest spells _
  obtain ⟨fuel, rfl⟩ : ∃ less, fuel = less + 1 := ⟨fuel - 1, by omega⟩
  obtain ⟨position, behind, rfl, isInner⟩ := spells_cons_iff.mp spells
  obtain ⟨middle, isInner, isClosed⟩ := spells_append_iff.mp isInner
  obtain ⟨position', behind', rfl, isRest⟩ := spells_cons_iff.mp isClosed
  rw [parseUnary, readBack fuel (by omega) isInner (.inr ⟨position', behind', rfl⟩)]
  simp only [bind, Except.bind, spells_nil_iff.mp isRest]

theorem ReadBack.reads_group_all {condition : Condition} (readBack : ReadBack length condition)
    (enough : groupNeed condition ≤ fuel) :
    Reads (parseAll length fuel) condition.group condition (Without .and) := by
  obtain ⟨fuel, rfl⟩ : ∃ less, fuel = less + 1 := ⟨fuel - 1, by rw [groupNeed] at enough; omega⟩
  rw [groupNeed] at enough
  exact (reads_parseAll (readBack.reads_group (by omega))).imp fun _ without => ⟨trivial, without⟩

theorem ReadBack.reads_group_any {condition : Condition} (readBack : ReadBack length condition)
    (enough : groupNeed condition < fuel) :
    Reads (parseAny length fuel) condition.group condition Unjoined := by
  obtain ⟨fuel, rfl⟩ : ∃ less, fuel = less + 1 := ⟨fuel - 1, by omega⟩
  exact reads_parseAny (readBack.reads_group_all (by omega))

theorem sum_groupNeed_le (connective : Token) (terms : List Condition) :
    (terms.map fun term => groupNeed term + 1).sum ≤
      4 * (terms.flatMap fun term => connective :: group term).length := by
  induction terms with
  | nil => exact Nat.le_refl 0
  | cons term rest inductionHypothesis =>
      simp only [List.map_cons, List.sum_cons, List.flatMap_cons, List.length_append,
        List.length_cons, List.length_nil, group, groupNeed] at inductionHypothesis ⊢
      omega

theorem length_separated_groups (connective : Token) (first : Condition)
    (others : List Condition) :
    (connective.separated (groups (first :: others))).length = first.tokens.length + 2 +
      (others.flatMap fun term => connective :: group term).length := by
  rw [groups_eq, List.map_cons, Token.separated, List.flatMap_map, List.length_append, group]
  simp only [List.length_append, List.length_cons, List.length_nil]

theorem spells_separated_groups {connective : Token} {first : Condition}
    {others : List Condition} {placed rest : List PlacedToken}
    (spells : Spells placed (connective.separated (groups (first :: others))) rest) :
    ∃ middle, Spells placed (group first) middle ∧
      Spells middle (others.flatMap fun term => connective :: group term) rest := by
  rw [groups_eq, List.map_cons, Token.separated, List.flatMap_map] at spells
  exact spells_append_iff.mp spells

theorem ReadBack.any {terms : List Condition} (several : 2 ≤ terms.length)
    (each : ∀ term ∈ terms, ReadBack length term) : ReadBack length (.any terms) := by
  intro fuel enough placed rest spells ends
  match terms, several with
  | first :: second :: others, _ =>
      rw [tokens] at spells enough
      rw [length_separated_groups] at enough
      obtain ⟨fuel, rfl⟩ : ∃ less, fuel = less + 1 := ⟨fuel - 1, by omega⟩
      have need := sum_groupNeed_le .or (second :: others)
      have needFirst : groupNeed first = 4 * first.tokens.length + 6 := rfl
      obtain ⟨middle, isFirst, areOthers⟩ := spells_separated_groups spells
      have orWithoutAnd (position : Nat) (rest : List PlacedToken) :
          Without .and (⟨position, .or⟩ :: rest) := without_cons (by decide)
      have isTerm : parseAll length fuel placed = .ok ⟨first, middle⟩ := by
        refine (each first (List.mem_cons_self ..)).reads_group_all (by omega) isFirst ?_
        obtain ⟨position, behind, rfl, -⟩ := spells_cons_iff.mp areOthers
        exact orWithoutAnd position behind
      have areTerms : parseMoreAny length fuel middle = .ok ⟨second :: others, rest⟩ :=
        repeats_parseMoreAny.reads groupNeed orWithoutAnd
          (fun term member fuel enough =>
            (each term (List.mem_cons_of_mem _ member)).reads_group_all enough)
          (by omega) areOthers ends.unjoined
      rw [parseAny, isTerm]
      simp only [bind, Except.bind, areTerms]
      rfl

theorem ReadBack.all {terms : List Condition} (several : 2 ≤ terms.length)
    (each : ∀ term ∈ terms, ReadBack length term) : ReadBack length (.all terms) := by
  intro fuel enough placed rest spells ends
  match terms, several with
  | first :: second :: others, _ =>
      rw [tokens] at spells enough
      rw [length_separated_groups] at enough
      obtain ⟨fuel, rfl⟩ : ∃ less, fuel = less + 2 := ⟨fuel - 2, by omega⟩
      have need := sum_groupNeed_le .and (second :: others)
      obtain ⟨middle, isFirst, areOthers⟩ := spells_separated_groups spells
      have isTerm : parseUnary length fuel placed = .ok ⟨first, middle⟩ :=
        (each first (List.mem_cons_self ..)).reads_group (by omega) isFirst trivial
      have areTerms : parseMoreAll length fuel middle = .ok ⟨second :: others, rest⟩ :=
        repeats_parseMoreAll.reads groupNeed (fun _ _ => trivial)
          (fun term member fuel enough =>
            (each term (List.mem_cons_of_mem _ member)).reads_group
              (Nat.le_of_succ_le enough))
          (by omega) areOthers ⟨trivial, ends.unjoined.1⟩
      have isAll : parseAll length (fuel + 1) placed =
          .ok ⟨.all (first :: second :: others), rest⟩ := by
        rw [parseAll, isTerm]
        simp only [bind, Except.bind, areTerms]
        rfl
      rw [parseAny, isAll]
      simp only [bind, Except.bind, repeats_parseMoreAny.stop _ rest ends.unjoined.2]
      rfl

theorem ReadBack.application {path : List PathStep} {body : Condition} (mode : MatchMode)
    (steps : PathWellFormed path) (inner : ReadBack length body) :
    ReadBack length (.application path mode body) := by
  intro fuel enough
  rw [tokens, List.length_append, List.length_cons, List.length_cons, List.length_append] at enough
  simp only [List.length_append, List.length_cons, List.length_nil] at enough
  obtain ⟨fuel, rfl⟩ : ∃ less, fuel = less + 5 := ⟨fuel - 5, by omega⟩
  refine reads_single fun placed rest spells _ => ?_
  rw [tokens] at spells
  obtain ⟨middle, isPath, isApplied⟩ := spells_append_iff.mp spells
  obtain ⟨position, behind, rfl, isBraced⟩ := spells_cons_iff.mp isApplied
  obtain ⟨position', behind, rfl, isEnclosed⟩ := spells_cons_iff.mp isBraced
  obtain ⟨last, isGroup, isClosed⟩ := spells_append_iff.mp isEnclosed
  obtain ⟨position'', behind', rfl, isRest⟩ := spells_cons_iff.mp isClosed
  have notColon : mode.token ≠ .colon := by cases mode <;> decide
  have notDot : mode.token ≠ .dot := by cases mode <;> decide
  have isBody : parseAny length fuel behind = .ok ⟨body, ⟨position'', .closeBrace⟩ :: behind'⟩ :=
    inner.reads_group_any (by rw [groupNeed]; omega) isGroup
      ⟨without_cons (by decide), without_cons (by decide)⟩
  rw [parseUnary_of_path steps.1 isPath (without_cons notColon), parseSingle,
    reads_parsePath steps.1 isPath (without_cons notDot)]
  cases mode <;>
    simp only [bind, Except.bind, MatchMode.token, parseBody, isBody, spells_nil_iff.mp isRest]

end Groups

/-- The tokens of a well-formed condition are read as that condition. -/
theorem readBack_of_wellFormed {length : Nat} {condition : Condition}
    (wellFormed : condition.WellFormed) : ReadBack length condition := by
  induction wellFormed with
  | any several _ each => exact .any several each
  | all several _ each => exact .all several each
  | @negation term _ inner =>
      intro fuel enough
      rw [tokens, List.length_cons, List.length_cons, List.length_append] at enough
      obtain ⟨fuel, rfl⟩ : ∃ less, fuel = less + 3 := ⟨fuel - 3, by omega⟩
      refine reads_single fun placed rest spells _ => ?_
      obtain ⟨position, behind, rfl, isGroup⟩ := spells_cons_iff.mp spells
      rw [parseUnary, inner.reads_group (by omega) isGroup trivial]
      rfl
  | predicate names =>
      intro fuel enough
      obtain ⟨fuel, rfl⟩ : ∃ less, fuel = less + 4 := ⟨fuel - 4, by omega⟩
      exact reads_single (reads_predicate names)
  | relation steps operands =>
      intro fuel enough
      obtain ⟨fuel, rfl⟩ : ∃ less, fuel = less + 4 := ⟨fuel - 4, by omega⟩
      exact reads_single (reads_relation steps operands)
  | application mode steps _ inner => exact .application mode steps inner

/-! ## Texts -/

/-- A well-formed condition is read from its written form. -/
theorem parse_print {condition : Condition} (wellFormed : condition.WellFormed) :
    parse condition.print = .ok (some condition) := by
  obtain ⟨placed, isScanned, areTokens⟩ := scanAll_print wellFormed
  have spells : Spells placed condition.tokens [] :=
    ⟨placed, (List.append_nil placed).symm, areTokens⟩
  have need := spells.length_eq
  rw [parse, isScanned]
  cases placed with
  | nil =>
      -- A condition has a token: the parser does not read anything from none.
      have read : parseAny 0 (4 * condition.tokens.length + 4) [] = .ok ⟨condition, []⟩ :=
        readBack_of_wellFormed wellFormed _ (Nat.le_refl _) spells (.inl rfl)
      cases read
  | cons token rest =>
      have isRead :
          parseAny condition.print.utf8ByteSize (fuelFor (token :: rest)) (token :: rest) =
            .ok ⟨condition, []⟩ := by
        refine readBack_of_wellFormed wellFormed _ ?_ spells (.inl rfl)
        rw [fuelFor, need, List.length_nil]
        omega
      simp only [bind, Except.bind, parseTerms, List.length_cons, isRead]

/-- The conditions that are read from texts are well formed, and each well-formed
condition is read from its written form. -/
theorem read_conditions :
    (∀ (text : String) (condition : Condition), parse text = .ok (some condition) →
      condition.WellFormed) ∧
    ∀ condition : Condition, condition.WellFormed → parse condition.print = .ok (some condition) :=
  ⟨fun _ _ => wellFormed_of_parse, fun _ => parse_print⟩

/-- Open nodes none of whose owners has other tags than two, and nodes all of whose
parts are small. -/
def openOrSmall : Condition :=
  .any [.all [.predicate (.name "open"),
      .negation (.relation [⟨true, "owner"⟩, ⟨false, "tag"⟩] ⟨some .all, .equal⟩
        [.quoted "a\"b", .dotted ["t", "u"]])],
    .application [⟨false, "part"⟩] .all (.relation [⟨false, "size"⟩] ⟨none, .less⟩ [.symbol "3"])]

theorem read_conditions_openOrSmall :
    parse "open & !~owner.tag &= \"a\\\"b\", t.u | part&\x7bsize<3\x7d" = .ok (some openOrSmall) ∧
      openOrSmall.WellFormed ∧ parse openOrSmall.print = .ok (some openOrSmall) := by
  have read : parse "open & !~owner.tag &= \"a\\\"b\", t.u | part&\x7bsize<3\x7d" =
      .ok (some openOrSmall) := by cbv
  have wellFormed := read_conditions.1 _ _ read
  exact ⟨read, wellFormed, read_conditions.2 _ wellFormed⟩

end Condition

end LifecycleGraph
