import Mathlib.Data.List.Chain
import LifecycleGraph.Proofs.Query.Parser
import LifecycleGraph.Query.Printer

/-!
# Tokens that are written out

Tokens written one behind the other, without blanks, are scanned as the same
tokens if no two symbols and no two operators meet: then no token can take
characters of the one behind it.
-/

set_option autoImplicit false

namespace LifecycleGraph

theorem isSymbolChar_of_isBlank {character : Char} (blank : Text.isBlank character = true) :
    isSymbolChar character = false := by
  have code : character.toNat ∈ [9, 10, 11, 12, 13, 0x20, 0x85, 0xA0, 0x1680, 0x2000, 0x2001,
      0x2002, 0x2003, 0x2004, 0x2005, 0x2006, 0x2007, 0x2008, 0x2009, 0x200A, 0x2028, 0x2029,
      0x202F, 0x205F, 0x3000] := by
    simp only [Text.isBlank, Bool.or_eq_true, Bool.and_eq_true, decide_eq_true_eq,
      beq_iff_eq] at blank
    simp only [List.mem_cons, List.not_mem_nil, or_false]
    omega
  rw [← Char.ofNat_toNat character]
  revert code
  generalize character.toNat = code
  revert code
  decide

namespace Token

/-- The characters of a token. -/
def written : Token → List Char
  | symbol text => text.toList
  | quoted text => '"' :: quotedCharacters text.toList
  | dot => ['.']
  | colon => [':']
  | comma => [',']
  | openParen => ['(']
  | closeParen => [')']
  | openBrace => ['\x7b']
  | closeBrace => ['\x7d']
  | tilde => ['~']
  | bang => ['!']
  | and => ['&']
  | or => ['|']
  | relation compared => compared.text.toList

def isSymbol : Token → Bool
  | symbol _ => true
  | _ => false

/-- Tokens that may take a relation behind them as a part of their own. -/
def isOperator : Token → Bool
  | bang | and | or | relation _ => true
  | _ => false

/-- Two tokens stay two when they are written one behind the other. -/
def apart (left right : Token) : Bool :=
  !(left.isSymbol && right.isSymbol) && !(left.isOperator && right.isOperator)

/-- The characters that comparisons start with. -/
def startsComparison (character : Char) : Bool :=
  character == '=' || character == '!' || character == '<' || character == '>'

/-- A text does not go on with a character of a kind. -/
def Stops (kind : Char → Bool) (text : List Char) : Prop :=
  ∀ character ∈ text.head?, kind character = false

/-- A token is complete in front of a text. -/
def Complete (token : Token) (rest : List Char) : Prop :=
  (token.isSymbol = true → Stops isSymbolChar rest) ∧
    (token.isOperator = true → Stops startsComparison rest)

theorem startsComparison_of_isSymbolChar {character : Char}
    (isSymbol : isSymbolChar character = true) : startsComparison character = false := by
  simp only [startsComparison, Bool.or_eq_false_iff, beq_eq_false_iff_ne]
  refine ⟨⟨⟨?_, ?_⟩, ?_⟩, ?_⟩ <;> rintro rfl <;> revert isSymbol <;> decide

theorem exists_head_of_isSymbol {text : String} (isSymbol : IsSymbol text) :
    ∃ first rest, text.toList = first :: rest ∧ isSymbolChar first = true ∧
      rest.all isSymbolChar = true := by
  obtain ⟨someText, all⟩ := isSymbol
  cases characters : text.toList with
  | nil => exact absurd (String.toList_eq_nil_iff.mp characters) someText
  | cons first rest =>
      rw [characters, List.all_cons, Bool.and_eq_true] at all
      exact ⟨first, rest, rfl, all.1, all.2⟩

/-- How a written token starts. -/
theorem exists_head_written {token : Token} (legible : token.Legible) :
    ∃ first rest, token.written = first :: rest ∧ isSymbolChar first = token.isSymbol ∧
      (token.isOperator = false → startsComparison first = false) ∧
      Text.isBlank first = false := by
  cases token with
  | symbol text =>
      obtain ⟨first, rest, characters, isSymbol, -⟩ := exists_head_of_isSymbol legible
      refine ⟨first, rest, characters, isSymbol,
        fun _ => startsComparison_of_isSymbolChar isSymbol, Bool.eq_false_iff.mpr fun blank => ?_⟩
      rw [isSymbolChar_of_isBlank blank] at isSymbol
      cases isSymbol
  | relation compared =>
      obtain ⟨mode, comparison⟩ := compared
      cases mode with
      | none => cases comparison <;> exact ⟨_, _, rfl, by decide, nofun, by decide⟩
      | some mode =>
          cases mode <;> cases comparison <;> exact ⟨_, _, rfl, by decide, nofun, by decide⟩
  | quoted text =>
      have notSymbol : isSymbolChar '"' = false := by decide
      exact ⟨_, _, rfl, notSymbol, fun _ => by decide, by decide⟩
  | bang => exact ⟨_, _, rfl, by decide, nofun, by decide⟩
  | and => exact ⟨_, _, rfl, by decide, nofun, by decide⟩
  | or => exact ⟨_, _, rfl, by decide, nofun, by decide⟩
  | _ => exact ⟨_, _, rfl, by decide, fun _ => by decide, by decide⟩

theorem complete_nil (token : Token) : token.Complete [] :=
  ⟨fun _ => nofun, fun _ => nofun⟩

theorem complete_of_apart {token next : Token} (legible : next.Legible)
    (apart : token.apart next = true) (rest : List Char) :
    token.Complete (next.written ++ rest) := by
  obtain ⟨first, others, isWritten, isSymbol, starts, -⟩ := exists_head_written legible
  rw [Token.apart, Bool.and_eq_true] at apart
  rw [isWritten]
  refine ⟨fun symbol character member => ?_, fun operator character member => ?_⟩
  · obtain rfl : first = character := Option.some.inj member
    rw [isSymbol]
    simpa [symbol] using apart.1
  · obtain rfl : first = character := Option.some.inj member
    exact starts (by simpa [operator] using apart.2)

/-! ## One token -/

theorem scanComparison?_text {comparison : Comparison} {rest : List Char}
    (stops : Stops startsComparison rest) :
    scanComparison? (comparison.text.toList ++ rest) = some (comparison, rest) := by
  have notEqual : ∀ {others}, rest ≠ '=' :: others := by
    rintro others rfl
    exact absurd (stops '=' rfl) (by decide)
  cases comparison with
  | equal | less | greater =>
      simp only [Comparison.text, String.reduceToList, List.cons_append, List.nil_append]
      unfold scanComparison?
      split <;> simp_all
  | unequal | lessOrEqual | greaterOrEqual => rfl

theorem scanComparison?_of_stops {rest : List Char} (stops : Stops startsComparison rest) :
    scanComparison? rest = none := by
  unfold scanComparison?
  split
  case h_8 => rfl
  all_goals exact absurd (stops _ rfl) (by decide)

theorem scanQuoted?_quotedCharacters (text rest : List Char) :
    scanQuoted? (quotedCharacters text ++ rest) = some (text, rest) := by
  induction text with
  | nil => rfl
  | cons character text inductionHypothesis =>
      rw [quotedCharacters]
      split
      · rename_i isSpecial
        rw [List.cons_append, List.cons_append, scanQuoted?, inductionHypothesis]
        rcases isSpecial with rfl | rfl <;> rfl
      · rename_i notSpecial
        rw [List.cons_append, scanQuoted?.eq_4, if_neg, inductionHypothesis]
        · rfl
        all_goals grind

theorem takeWhile_append_of_stops {kind : Char → Bool} {text rest : List Char}
    (isKind : text.all kind = true) (stops : Stops kind rest) :
    (text ++ rest).takeWhile kind = text := by
  rw [List.takeWhile_append_of_pos (List.all_eq_true.mp isKind)]
  cases rest with
  | nil => exact List.append_nil text
  | cons character rest => simp [stops character rfl]

theorem dropWhile_append_of_stops {kind : Char → Bool} {text rest : List Char}
    (isKind : text.all kind = true) (stops : Stops kind rest) :
    (text ++ rest).dropWhile kind = rest := by
  rw [List.dropWhile_append_of_pos (List.all_eq_true.mp isKind)]
  cases rest with
  | nil => rfl
  | cons character rest => simp [stops character rfl]

/-- A character that a comparison starts with is no other mark. -/
theorem scan_of_startsComparison {position : Nat} {first : Char} {rest : List Char}
    (starts : startsComparison first = true) :
    scan position first rest =
      match scanComparison? (first :: rest) with
      | some (comparison, behind) => .ok (relation ⟨none, comparison⟩, behind)
      | none =>
          if first = '!' then .ok (bang, rest)
          else .error (.unexpectedCharacter first position) := by
  have notSymbol : isSymbolChar first = false :=
    Bool.eq_false_iff.mpr fun isSymbol => by
      rw [startsComparison_of_isSymbolChar isSymbol] at starts
      cases starts
  unfold scan
  split
  case h_12 =>
    cases scanComparison? (first :: rest) with
    | some found => rfl
    | none => simp only [notSymbol, Bool.false_eq_true, ↓reduceIte]
  all_goals exact absurd starts (by decide)

theorem scan_of_isSymbolChar {position : Nat} {first : Char} {rest : List Char}
    (isSymbol : isSymbolChar first = true) :
    scan position first rest =
      .ok (symbol (String.ofList (first :: rest.takeWhile isSymbolChar)),
        rest.dropWhile isSymbolChar) := by
  have notComparison := startsComparison_of_isSymbolChar isSymbol
  have noComparison : scanComparison? (first :: rest) = none := by
    refine scanComparison?_of_stops fun character member => ?_
    obtain rfl : first = character := Option.some.inj member
    exact notComparison
  have notBang : first ≠ '!' := by
    rintro rfl
    exact absurd notComparison (by decide)
  unfold scan
  split
  case h_12 => simp only [noComparison, notBang, isSymbol, ↓reduceIte]
  all_goals exact absurd isSymbol (by decide)

theorem exists_head_text (comparison : Comparison) : ∃ first rest,
    comparison.text.toList = first :: rest ∧ startsComparison first = true := by
  cases comparison <;> exact ⟨_, _, rfl, by decide⟩

/-- A token that is complete is scanned. -/
theorem scan_written {token : Token} {first : Char} {behind rest : List Char} (position : Nat)
    (legible : token.Legible) (complete : token.Complete rest)
    (isWritten : token.written = first :: behind) :
    scan position first (behind ++ rest) = .ok (token, rest) := by
  cases token with
  | symbol text =>
      obtain ⟨first', others, characters, isSymbol, areSymbols⟩ := exists_head_of_isSymbol legible
      obtain ⟨rfl, rfl⟩ := List.cons.inj (characters.symm.trans isWritten)
      have stops := complete.1 rfl
      rw [scan_of_isSymbolChar isSymbol, takeWhile_append_of_stops areSymbols stops,
        dropWhile_append_of_stops areSymbols stops, ← characters, String.ofList_toList]
  | quoted text =>
      cases isWritten
      simp only [scan, scanQuoted?_quotedCharacters, String.ofList_toList]
  | bang =>
      cases isWritten
      have notUnequal : scanComparison? ('!' :: rest) = none := by
        cases rest with
        | nil => rfl
        | cons next rest =>
            have notEqual : next ≠ '=' := by
              rintro rfl
              exact absurd (complete.2 rfl '=' rfl) (by decide)
            simp [scanComparison?, notEqual]
      rw [List.nil_append, scan_of_startsComparison (by decide), notUnequal]
      rfl
  | and =>
      cases isWritten
      simp only [scan, scanMode, List.nil_append, scanComparison?_of_stops (complete.2 rfl)]
  | or =>
      cases isWritten
      simp only [scan, scanMode, List.nil_append, scanComparison?_of_stops (complete.2 rfl)]
  | relation compared =>
      obtain ⟨mode, comparison⟩ := compared
      have read : scanComparison? (comparison.text.toList ++ rest) = some (comparison, rest) :=
        scanComparison?_text (complete.2 rfl)
      cases mode with
      | none =>
          obtain ⟨first', behind', characters, starts⟩ := exists_head_text comparison
          rw [characters, List.cons_append] at read
          rw [written, Relation.text, Option.map_none, Option.getD_none, String.empty_append,
            characters] at isWritten
          obtain ⟨rfl, rfl⟩ := List.cons.inj isWritten
          rw [scan_of_startsComparison starts, read]
      | some mode =>
          rw [written, Relation.text, Option.map_some, Option.getD_some,
            String.toList_append] at isWritten
          cases mode with
          | all =>
              rw [show MatchMode.all.text.toList = ['&'] from rfl, List.singleton_append]
                at isWritten
              obtain ⟨rfl, rfl⟩ := List.cons.inj isWritten
              simp only [scan, scanMode, read]
          | any =>
              rw [show MatchMode.any.text.toList = ['|'] from rfl, List.singleton_append]
                at isWritten
              obtain ⟨rfl, rfl⟩ := List.cons.inj isWritten
              simp only [scan, scanMode, read]
  | _ =>
      cases isWritten
      rfl

/-! ## All tokens of a text -/

/-- With enough fuel and at any position, a text is scanned as some tokens. -/
def ScansTo (text : List Char) (tokens : List Token) : Prop :=
  ∀ fuel position, text.length ≤ fuel →
    ∃ placed, scanFrom fuel position text = .ok placed ∧ placed.map PlacedToken.token = tokens

theorem scansTo_nil : ScansTo [] [] := by
  intro fuel position _
  refine ⟨[], ?_, rfl⟩
  cases fuel <;> rfl

theorem ScansTo.cons {token : Token} {rest : List Char} {tokens : List Token}
    (legible : token.Legible) (complete : token.Complete rest) (scans : ScansTo rest tokens) :
    ScansTo (token.written ++ rest) (token :: tokens) := by
  intro fuel position enough
  obtain ⟨first, behind, isWritten, -, -, notBlank⟩ := exists_head_written legible
  rw [isWritten, List.cons_append, List.length_cons, List.length_append] at enough
  obtain ⟨fuel, rfl⟩ : ∃ less, fuel = less + 1 := ⟨fuel - 1, by omega⟩
  rw [isWritten, List.cons_append, scanFrom, if_neg (by simp [notBlank]),
    scan_written position legible complete isWritten]
  obtain ⟨placed, read, areTokens⟩ := scans fuel
    (position + byteWidth (first :: (behind ++ rest)) - byteWidth rest) (by omega)
  refine ⟨⟨position, token⟩ :: placed, ?_, by rw [List.map_cons, areTokens]⟩
  simp only [bind, Except.bind, read]

/-- Tokens that stay apart are scanned again when they are written out. -/
theorem scansTo_written {tokens : List Token} (legible : ∀ token ∈ tokens, token.Legible)
    (areApart : tokens.IsChain fun left right => left.apart right = true) :
    ScansTo (tokens.flatMap written) tokens := by
  induction tokens with
  | nil => exact scansTo_nil
  | cons token rest inductionHypothesis =>
      have restLegible : ∀ other ∈ rest, other.Legible :=
        fun other member => legible other (List.mem_cons_of_mem _ member)
      refine .cons (legible token (List.mem_cons_self ..)) ?_
        (inductionHypothesis restLegible areApart.tail)
      cases rest with
      | nil => exact complete_nil token
      | cons next rest =>
          exact complete_of_apart (restLegible next (List.mem_cons_self ..))
            (List.isChain_cons_cons.mp areApart).1 _

end Token

end LifecycleGraph
