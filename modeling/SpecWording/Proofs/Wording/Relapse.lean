import SpecWording.Proofs.Wording.FlaggedStart

/-!
# Reworded descriptions that are flagged again

Rewording is meant to leave nothing to report, and mostly it does. The word that comes to the front
may however start with "should" itself, either as the description has it or as a table of words
writes it: then the next run reports the reworded description. It happens in these cases only, since
the endings of the third person do not touch the start of a word.
-/

namespace SpecWording.Wording

open Syntax (Node ByteRange)
open Text (Span words unwords)

variable {tables : WordTables}

/-- Whether the word that rewording brings to the front starts with "should" again. A word that is
put into its third-person form counts as it was, and a replacement as the table has it. -/
def relapses (tables : WordTables) (description : String) : Bool :=
  match words description.toList with
  | [] => false
  | first :: others =>
    if first = negatedDemand then (negationForm? tables).any startsFlagged
    else others.head?.any fun next ↦
      startsFlagged (if tables.ignores next then next else (tables.transform? next).getD next)

theorem startsFlagged_nil : startsFlagged [] = false := rfl

theorem startsFlagged_present (word : List Char) :
    startsFlagged (present tables word) =
      startsFlagged ((tables.transform? word).getD word) := by
  unfold present
  cases tables.transform? word with
  | none => exact startsFlagged_suffixForm word
  | some form => rfl

theorem startsFlagged_presentFirst (others : List (List Char)) :
    startsFlagged (unwords (presentFirst tables others)) = others.head?.any fun next ↦
      startsFlagged (if tables.ignores next then next else (tables.transform? next).getD next) := by
  cases others with
  | nil => exact startsFlagged_nil
  | cons next others =>
    simp only [List.head?_cons, Option.any_some, presentFirst]
    split
    · rw [startsFlagged_unwords_cons]
    · rw [startsFlagged_unwords_cons, startsFlagged_present]

theorem startsFlagged_negation_cons (others : List (List Char)) :
    startsFlagged (unwords (negation :: others)) = false := by
  rw [startsFlagged_unwords_cons]
  decide

/-- A reworded description starts with "should" again exactly if it relapses. -/
theorem startsFlagged_reword (description : String) :
    startsFlagged (reword tables description).toList = relapses tables description := by
  rw [reword, String.toList_ofList, relapses]
  cases words description.toList with
  | nil => exact startsFlagged_nil
  | cons first others =>
    by_cases hfirst : first = negatedDemand
    · simp only [hfirst, rewordWords_negatedDemand, if_true]
      cases negationForm? tables with
      | none => exact startsFlagged_negation_cons _
      | some form => exact startsFlagged_unwords_cons form others
    · simp only [rewordWords_of_ne hfirst, if_neg hfirst]
      exact startsFlagged_presentFirst others

/-! ## The next run -/

/-- Once its reworded text stands as the description of an example, the example is reported again
exactly if the description relapses. -/
theorem detect_reworded (tables : WordTables) (description corrected : String) (range : ByteRange)
    (reworded : Span) (node : Node) (hnode : Describes reworded.text range node)
    (hspan : Span.inner? corrected range.start range.stop = some reworded)
    (htext : reworded.text = reword tables description) :
    detect corrected node = if relapses tables description then some reworded else none := by
  rw [detect_of_describes hnode, hspan, htext, startsFlagged_reword]

theorem detect_reworded_find :
    reword {} "should find nothing" = "finds nothing" ∧
      detect "it('finds nothing') {}" (calledExample "finds nothing") = none := by
  have htext : "finds nothing" = reword {} "should find nothing" := by decide +kernel
  have hdetect := detect_reworded {} "should find nothing" "it('finds nothing') {}" ⟨3, 18⟩
    ⟨"it('".toList, "finds nothing".toList, "') {}".toList⟩ (calledExample "finds nothing")
    (describes_calledExample _) (by decide +kernel) (by decide +kernel)
  have hkept : relapses {} "should find nothing" = false := by decide +kernel
  rw [hkept, if_neg (by decide)] at hdetect
  exact ⟨htext.symm, hdetect⟩

/-- Of two words "should" only the first one goes, and the other one takes an ending. -/
theorem detect_reworded_should_should :
    (detect "it('should should work') {}" (calledExample "should should work")).map Span.text =
        some "should should work" ∧
      reword {} "should should work" = "shoulds work" ∧
      (detect "it('shoulds work') {}" (calledExample "shoulds work")).map Span.text =
        some "shoulds work" := by
  decide +kernel

end SpecWording.Wording
