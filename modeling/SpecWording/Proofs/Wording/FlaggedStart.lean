import SpecWording.Proofs.Text.Lowercase
import SpecWording.Proofs.Text.Words
import SpecWording.Proofs.Wording.PresentTense
import SpecWording.Wording.ExampleRule

/-!
# Texts that start with "should"

The test on the beginning of a text asks for the six letters in any ASCII case and nothing else. It
looks no further than the first word, and a word passes it before it takes its third-person ending
exactly if it passes it afterwards.
-/

namespace SpecWording.Wording

open Syntax (Node ByteRange)
open Text (Span unwords)

variable {c : Char}

theorem isPlainLetter_of_mem_flaggedStart : ∀ a ∈ flaggedStart, Text.IsPlainLetter a := by
  intro a ha
  have hletters : flaggedStart = ['s', 'h', 'o', 'u', 'l', 'd'] := rfl
  simp only [hletters, List.mem_cons, List.not_mem_nil, or_false] at ha
  rcases ha with rfl | rfl | rfl | rfl | rfl | rfl <;> decide

/-- A text is flagged where its first letters are those of "should" up to ASCII case. -/
theorem startsFlagged_iff (text : List Char) :
    startsFlagged text = true ↔ flaggedStart <+: text.map Char.toLower := by
  rw [startsFlagged, List.isPrefixOf_iff_prefix]
  exact Text.prefix_lowercase_iff isPlainLetter_of_mem_flaggedStart text

theorem startsFlagged_eq_iff (front back : List Char) :
    startsFlagged front = startsFlagged back ↔
      (flaggedStart <+: front.map Char.toLower ↔ flaggedStart <+: back.map Char.toLower) := by
  rw [Bool.eq_iff_iff, startsFlagged_iff, startsFlagged_iff]

/-- Nothing matters from the first character on that is not a letter of "should". -/
theorem startsFlagged_append_cons (h : c.toLower ∉ flaggedStart) (front back : List Char) :
    startsFlagged (front ++ c :: back) = startsFlagged front := by
  rw [startsFlagged_eq_iff, List.map_append, List.map_cons]
  refine ⟨fun hstart ↦ ?_, fun hstart ↦ hstart.trans (List.prefix_append _ _)⟩
  rcases List.prefix_or_prefix_of_prefix hstart (List.prefix_append _ _) with
    hshort | ⟨rest, hrest⟩
  · exact hshort
  · rw [← hrest, List.prefix_append_right_inj] at hstart
    cases rest with
    | nil => simp [← hrest]
    | cons a rest =>
      obtain ⟨rfl, -⟩ := List.cons_prefix_cons.mp hstart
      exact absurd (by simp [← hrest]) h

/-- A single character at the end matters only where it may be the last letter of "should". -/
theorem startsFlagged_concat (h : c.toLower ≠ 'd') (front : List Char) :
    startsFlagged (front ++ [c]) = startsFlagged front := by
  rw [startsFlagged_eq_iff, List.map_append, List.map_singleton, List.prefix_concat_iff]
  refine ⟨fun hstart ↦ hstart.resolve_left fun heq ↦ ?_, .inr⟩
  have hlast := congrArg List.getLast? heq
  rw [List.getLast?_concat] at hlast
  exact h (Option.some.inj hlast).symm

/-- The ending of the third person neither makes nor breaks a start with "should". -/
theorem startsFlagged_suffixForm (word : List Char) :
    startsFlagged (suffixForm word) = startsFlagged word := by
  obtain ⟨stem, ending, hform, hword, hending⟩ := exists_stem_suffixForm word
  have hword : startsFlagged word = startsFlagged stem := by
    rcases hword with rfl | rfl
    · rfl
    · apply startsFlagged_append_cons
      decide
  have hending : startsFlagged (stem ++ ending) = startsFlagged stem := by
    simp only [List.mem_cons, List.not_mem_nil, or_false] at hending
    rcases hending with rfl | rfl | rfl
    · apply startsFlagged_concat
      decide
    · apply startsFlagged_append_cons
      decide
    · apply startsFlagged_append_cons
      decide
  calc
    _ = startsFlagged (stem ++ ending) := by rw [hform]
    _ = startsFlagged stem := hending
    _ = _ := hword.symm

/-- Only the first word of a text matters. -/
theorem startsFlagged_unwords_cons (word : List Char) (others : List (List Char)) :
    startsFlagged (unwords (word :: others)) = startsFlagged word := by
  cases others with
  | nil => rfl
  | cons other others =>
    rw [Text.unwords_cons_cons]
    apply startsFlagged_append_cons
    decide

/-! ## Examples -/

/-- An example whose description is a literal of a value and a range, whatever else it has. -/
inductive Describes (value : String) (range : ByteRange) : Node → Prop
  | block (receiver : Option Node) (others : List Node) (callRange : ByteRange) (body : List Node)
      (blockRange : ByteRange) :
      Describes value range
        (.block ⟨receiver, exampleMethod, .str value range :: others, callRange⟩ body blockRange)

theorem detect_of_describes {source value : String} {range : ByteRange} {node : Node}
    (h : Describes value range node) : detect source node =
      if startsFlagged value.toList then Span.inner? source range.start range.stop else none := by
  cases h with
  | block receiver others callRange body blockRange =>
    simp only [detect, flaggedLiteral?, true_and]
    split <;> rfl

/-- The tree of an example such as `it('works') {}`. -/
def calledExample (description : String) : Node :=
  let stop := Text.byteLength description.toList + 5
  .block ⟨none, exampleMethod, [.str description ⟨3, stop⟩], ⟨0, stop + 1⟩⟩ [] ⟨0, stop + 4⟩

theorem describes_calledExample (description : String) :
    Describes description ⟨3, Text.byteLength description.toList + 5⟩
      (calledExample description) :=
  .block none [] _ [] _

end SpecWording.Wording
