import LifecycleGraph.Text.Parts

/-!
# Joined and cut texts

A text that was joined with a separator is cut into what was joined, where none of it
has the separator.  What a text is cut into is joined to the text again.
-/

set_option autoImplicit false

namespace LifecycleGraph

namespace Text

theorem splitOn_of_not_mem {separator : Char} {text : List Char} (absent : separator ∉ text) :
    splitOn separator text = [text] := by
  induction text with
  | nil => rfl
  | cons character rest inductionHypothesis =>
      have different := List.ne_of_not_mem_cons absent
      have absent := List.not_mem_of_not_mem_cons absent
      simp only [splitOn, Ne.symm different, if_false, inductionHypothesis absent]

theorem splitOn_append {separator : Char} {text : List Char} (absent : separator ∉ text)
    (rest : List Char) :
    splitOn separator (text ++ separator :: rest) = text :: splitOn separator rest := by
  induction text with
  | nil => simp [splitOn]
  | cons character text inductionHypothesis =>
      have different := List.ne_of_not_mem_cons absent
      have absent := List.not_mem_of_not_mem_cons absent
      simp only [List.cons_append, splitOn, Ne.symm different, if_false, inductionHypothesis absent]

theorem splitOnce?_of_not_mem {separator : Char} {text : List Char} (absent : separator ∉ text) :
    splitOnce? separator text = none := by
  induction text with
  | nil => rfl
  | cons character rest inductionHypothesis =>
      have different := List.ne_of_not_mem_cons absent
      have absent := List.not_mem_of_not_mem_cons absent
      simp only [splitOnce?, Ne.symm different, if_false, inductionHypothesis absent,
        Option.map_none]

theorem splitOnce?_append {separator : Char} {text : List Char} (absent : separator ∉ text)
    (rest : List Char) :
    splitOnce? separator (text ++ separator :: rest) = some (text, rest) := by
  induction text with
  | nil => simp [splitOnce?]
  | cons character text inductionHypothesis =>
      have different := List.ne_of_not_mem_cons absent
      have absent := List.not_mem_of_not_mem_cons absent
      simp only [List.cons_append, splitOnce?, Ne.symm different, if_false,
        inductionHypothesis absent, Option.map_some]

/-- Names without a dot are the parts of the text that joins them. -/
theorem parts_joinWith {names : List String} (notEmpty : names ≠ [])
    (plain : ∀ name ∈ names, '.' ∉ name.toList) : parts '.' (joinWith "." names) = names := by
  induction names with
  | nil => exact absurd rfl notEmpty
  | cons name rest inductionHypothesis =>
      have here := plain name (List.mem_cons_self ..)
      cases rest with
      | nil => simp [joinWith, parts, splitOn_of_not_mem here]
      | cons next rest =>
          have there := inductionHypothesis (List.cons_ne_nil next rest)
            fun other member => plain other (List.mem_cons_of_mem _ member)
          have dotted : (joinWith "." (name :: next :: rest)).toList =
              name.toList ++ '.' :: (joinWith "." (next :: rest)).toList := by
            simp [joinWith]
          rw [parts] at there ⊢
          rw [dotted, splitOn_append here, List.map_cons, there, String.ofList_toList]

theorem joinWith_splitOn (text : List Char) :
    (joinWith "." ((splitOn '.' text).map String.ofList)).toList = text := by
  induction text with
  | nil => rfl
  | cons character rest inductionHypothesis =>
      obtain ⟨part, others, isSplit⟩ := List.exists_cons_of_ne_nil (splitOn_ne_nil '.' rest)
      rw [isSplit] at inductionHypothesis
      unfold splitOn
      split
      · rename_i same
        rw [same, isSplit, List.map_cons, joinWith.eq_3 _ _ _ (by simp)]
        simpa using inductionHypothesis
      · simp only [isSplit]
        cases others <;> simpa [joinWith] using inductionHypothesis

/-- The parts of a text are joined to the text. -/
theorem joinWith_parts (text : String) : joinWith "." (parts '.' text) = text :=
  String.toList_inj.mp (joinWith_splitOn text.toList)

theorem cutOnce?_of_not_mem {name : String} (plain : ':' ∉ name.toList) :
    cutOnce? ':' name = none := by
  rw [cutOnce?, splitOnce?_of_not_mem plain, Option.map_none]

theorem cutOnce?_qualified {type : String} (plain : ':' ∉ type.toList) (name : String) :
    cutOnce? ':' (type ++ ":" ++ name) = some (type, name) := by
  have written : (type ++ ":" ++ name).toList = type.toList ++ ':' :: name.toList := by simp
  simp [cutOnce?, written, splitOnce?_append plain]

end Text

end LifecycleGraph
