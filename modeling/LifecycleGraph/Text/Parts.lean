/-!
# Parts of a text

A text is cut at a separator and joined again with it: the names of a dotted
path, the type and the name of a qualified one.
-/

set_option autoImplicit false

namespace LifecycleGraph.Text

/-- The texts between the occurrences of a separator; the text itself when
there is none. -/
def splitOn (separator : Char) : List Char → List (List Char)
  | [] => [[]]
  | character :: rest =>
      if character = separator then [] :: splitOn separator rest
      else
        match splitOn separator rest with
        | [] => [[character]]
        | part :: parts => (character :: part) :: parts

/-- The texts before and after the first occurrence of a separator. -/
def splitOnce? (separator : Char) : List Char → Option (List Char × List Char)
  | [] => none
  | character :: rest =>
      if character = separator then some ([], rest)
      else (splitOnce? separator rest).map fun (before, after) =>
        (character :: before, after)

theorem splitOn_ne_nil (separator : Char) (text : List Char) :
    splitOn separator text ≠ [] := by
  cases text with
  | nil => simp [splitOn]
  | cons character rest =>
      unfold splitOn
      split
      · simp
      · split <;> simp

/-- The texts joined with a separator between each two of them. -/
def joinWith (separator : String) : List String → String
  | [] => ""
  | [text] => text
  | text :: rest => text ++ separator ++ joinWith separator rest

def parts (separator : Char) (text : String) : List String :=
  (splitOn separator text.toList).map String.ofList

/-- The text before the first occurrence of a separator and the text after it. -/
def cutOnce? (separator : Char) (text : String) : Option (String × String) :=
  (splitOnce? separator text.toList).map fun (before, after) =>
    (String.ofList before, String.ofList after)

theorem parts_ne_nil (separator : Char) (text : String) :
    parts separator text ≠ [] := by
  simp [parts, splitOn_ne_nil]

theorem not_mem_of_mem_splitOn {separator : Char} {text part : List Char}
    (member : part ∈ splitOn separator text) : separator ∉ part := by
  induction text generalizing part with
  | nil =>
      rw [splitOn, List.mem_singleton] at member
      rw [member]
      exact List.not_mem_nil
  | cons character rest inductionHypothesis =>
      unfold splitOn at member
      split at member
      · rcases List.mem_cons.mp member with rfl | inRest
        · exact List.not_mem_nil
        · exact inductionHypothesis inRest
      · rename_i different
        cases split : splitOn separator rest with
        | nil => exact absurd split (splitOn_ne_nil separator rest)
        | cons first others =>
            simp only [split] at member inductionHypothesis
            rcases List.mem_cons.mp member with rfl | inOthers
            · have notInFirst := inductionHypothesis (List.mem_cons_self ..)
              simp [Ne.symm different, notInFirst]
            · exact inductionHypothesis (List.mem_cons_of_mem _ inOthers)

theorem not_mem_of_mem_parts {separator : Char} {text part : String}
    (member : part ∈ parts separator text) : separator ∉ part.toList := by
  obtain ⟨characters, isPart, rfl⟩ := List.mem_map.mp member
  rw [String.toList_ofList]
  exact not_mem_of_mem_splitOn isPart

end LifecycleGraph.Text
