import SpecWording.Proofs.Offsets.Inside
import SpecWording.Proofs.Wording.FlaggedStart

/-!
# What counts as a flagged example

A block called `it` whose first argument is a plain literal is flagged if the literal's value starts
with the six letters in any ASCII case and its range has an inside in the text. The lower case of the
whole value, which knows all alphabets, finds the same values as a look at six characters.
-/

namespace SpecWording.Wording

open Offsets (Extent IsInside)
open Syntax (Node ByteRange)
open Text (Span)

variable {source : String} {node : Node} {span : Span}

theorem startsFlagged_iff_take (text : List Char) :
    startsFlagged text = true ↔ (text.take 6).map Char.toLower = flaggedStart := by
  have hlength : flaggedStart.length = 6 := rfl
  rw [startsFlagged_iff, List.prefix_iff_eq_take, hlength, List.map_take]
  exact eq_comm

theorem exists_describes_of_detect (h : detect source node = some span) :
    ∃ value range, Describes value range node := by
  obtain ⟨range, hrange, -⟩ := Option.bind_eq_some_iff.mp h
  unfold flaggedLiteral? at hrange
  split at hrange
  · next receiver method value range' others callRange body blockRange =>
    obtain ⟨⟨rfl, -⟩, -⟩ := Option.ite_none_right_eq_some.mp hrange
    exact ⟨value, range', .block receiver others callRange body blockRange⟩
  · cases hrange

/-- A flagged example is an example with a flagged value, and what is flagged is the inside of its
literal. -/
theorem detect_eq_some_iff : detect source node = some span ↔
    ∃ value range, Describes value range node ∧ startsFlagged value.toList = true ∧
      Span.inner? source range.start range.stop = some span := by
  constructor
  · intro h
    obtain ⟨value, range, hdescribes⟩ := exists_describes_of_detect h
    rw [detect_of_describes hdescribes, Option.ite_none_right_eq_some] at h
    exact ⟨value, range, hdescribes, h⟩
  · rintro ⟨value, range, hdescribes, hflagged, hinner⟩
    rw [detect_of_describes hdescribes, if_pos hflagged, hinner]

/-- A node is flagged exactly if it is a block called `it`, its first argument is a plain literal,
the value of the literal starts with "should" up to ASCII case, and the range of the literal is a
slice of the text with two characters or more. What is flagged is then this slice without its first
and its last character. -/
theorem detect_flags_examples (source : String) (node : Node) :
    ((detect source node).isSome ↔ ∃ value range, Describes value range node ∧
      (value.toList.take 6).map Char.toLower = "should".toList ∧
      ∃ h : Extent.Fits source ⟨range.start, range.stop⟩, 2 ≤ (Extent.cut h).length) ∧
    ∀ span, detect source node = some span ↔ ∃ value range, Describes value range node ∧
      (value.toList.take 6).map Char.toLower = "should".toList ∧
      IsInside source range.start range.stop span := by
  have hdetect (span : Span) : detect source node = some span ↔ ∃ value range,
      Describes value range node ∧ (value.toList.take 6).map Char.toLower = "should".toList ∧
        IsInside source range.start range.stop span := by
    simp only [detect_eq_some_iff, startsFlagged_iff_take, Offsets.inner?_eq_some_iff_isInside]
    rfl
  refine ⟨?_, hdetect⟩
  simp only [Option.isSome_iff_exists, hdetect, ← Offsets.isSome_inner?_iff,
    Offsets.inner?_eq_some_iff_isInside]
  constructor
  · rintro ⟨span, value, range, hdescribes, hvalue, hinside⟩
    exact ⟨value, range, hdescribes, hvalue, span, hinside⟩
  · rintro ⟨value, range, hdescribes, hvalue, span, hinside⟩
    exact ⟨span, value, range, hdescribes, hvalue, hinside⟩

example : (detect "it('SHOULDer') {}" (calledExample "SHOULDer")).map Span.text =
    some "SHOULDer" := by decide +kernel

example : detect "it('ſhould') {}" (calledExample "ſhould") = none := by decide +kernel

end SpecWording.Wording
