import Mathlib.Logic.Function.Iterate
import SpecWording.Proofs.Wording.Negation
import SpecWording.Proofs.Wording.Relapse

/-!
# Rewording again and again

A reworded description may start with "should" once more, and then it is reworded again. Without
replacements of the user's this comes to an end: what is counted are the demands at the front, the
words that start with "should". An ending neither makes nor breaks a demand, so every pass takes one
of them away, unless it leaves a "not" at the front, and behind a "not" nothing is flagged.
-/

namespace SpecWording.Wording

open Text (IsWord words unwords)

variable {tables : WordTables} {word : List Char} {others : List (List Char)} {text : String}

/-- Whether a text starts with the letters of "should" in any ASCII case. -/
def isDemand (text : List Char) : Bool := flaggedStart.isPrefixOf (text.map Char.toLower)

/-- The words at the front of a text that are demands, up to the first one that is not. -/
def demands (text : String) : List (List Char) := (words text.toList).takeWhile isDemand

theorem startsFlagged_eq_isDemand (text : List Char) : startsFlagged text = isDemand text := by
  rw [Bool.eq_iff_iff, startsFlagged_iff, isDemand, List.isPrefixOf_iff_prefix]

theorem isDemand_nil : isDemand [] = false := rfl

theorem isDemand_negation : isDemand negation = false := by decide

/-- A demand at the start of a text is its first word, or the start of it. -/
theorem exists_words_of_isDemand {text : List Char} (h : isDemand text = true) :
    ∃ first others, words text = first :: others ∧ isDemand first = true := by
  have hne {front : List Char} (hfront : isDemand front = true) : front ≠ [] := by
    rintro rfl
    cases isDemand_nil.symm.trans hfront
  induction text using Text.induction_on_blanks with
  | solid front hfront =>
    exact ⟨front, [], Text.words_of_isWord ⟨hne h, hfront⟩, h⟩
  | cut front c back hfront hc ih =>
    have hletter : c.toLower ∉ flaggedStart := by
      simp only [Text.isBlank, Bool.or_eq_true, beq_iff_eq] at hc
      rcases hc with (((rfl | rfl) | rfl) | rfl) | rfl <;> decide
    rw [← startsFlagged_eq_isDemand, startsFlagged_append_cons hletter,
      startsFlagged_eq_isDemand] at h
    refine ⟨front, words back, ?_, h⟩
    rw [Text.words_append_cons hc, Text.words_of_isWord ⟨hne h, hfront⟩, List.singleton_append]

/-! ## One pass -/

section Plain

variable (hplain : tables.transforms = [])

include hplain

theorem transform?_of_plain (word : List Char) : tables.transform? word = none := by
  rw [WordTables.transform?, hplain, List.lookup_nil, Option.map_none]

theorem present_of_plain (word : List Char) : present tables word = suffixForm word := by
  rw [present, transform?_of_plain hplain, Option.getD_none]

/-- Taking its third-person form, a word stays a demand or stays none. -/
theorem isDemand_present (word : List Char) : isDemand (present tables word) = isDemand word := by
  rw [present_of_plain hplain, ← startsFlagged_eq_isDemand, startsFlagged_suffixForm,
    startsFlagged_eq_isDemand]

theorem map_isDemand_presentFirst (others : List (List Char)) :
    (presentFirst tables others).map isDemand = others.map isDemand := by
  induction others with
  | nil => rfl
  | cons word others ih =>
    rw [presentFirst]
    split
    · rw [List.map_cons, ih, List.map_cons]
    · rw [List.map_cons, isDemand_present hplain, List.map_cons]

theorem isWord_of_mem_presentFirst (h : ∀ word ∈ others, IsWord word)
    (hword : word ∈ presentFirst tables others) : IsWord word := by
  rcases mem_presentFirst hword with hmem | ⟨given, hmem, rfl⟩
  · exact h word hmem
  · rw [present_of_plain hplain]
    exact isWord_suffixForm (h given hmem)

/-- The words behind the first one stay the words of the description, one of them in another form.
In front of them may stand a "not". -/
theorem words_reword (htext : words text.toList = word :: others) :
    words (reword tables text).toList =
      (if word = negatedDemand then [negation] else []) ++ presentFirst tables others := by
  have hothers : ∀ other ∈ others, IsWord other := by
    intro other hmem
    have hwords : other ∈ words text.toList := by
      rw [htext]
      exact List.mem_cons_of_mem _ hmem
    exact Text.isWord_of_mem_words hwords
  have hpresent : (presentFirst tables others).flatMap words = presentFirst tables others :=
    Text.flatMap_words fun other ↦ isWord_of_mem_presentFirst hplain hothers
  rw [reword, String.toList_ofList, Text.words_unwords, htext]
  by_cases hword : word = negatedDemand
  · have hform : negationForm? tables = none := by
      simp [negationForm?, transform?_of_plain hplain]
    rw [if_pos hword, hword, rewordWords_negatedDemand, hform, List.flatMap_cons, hpresent,
      Text.words_of_isWord isWord_negation]
  · rw [if_neg hword, rewordWords_of_ne hword, hpresent, List.nil_append]

/-- A pass leaves a "not" at the front, or one demand less. -/
theorem head?_or_length_demands_reword (h : isDemand text.toList = true) :
    (words (reword tables text).toList).head? = some negation ∨
      (demands (reword tables text)).length + 1 = (demands text).length := by
  obtain ⟨first, others, htext, hfirst⟩ := exists_words_of_isDemand h
  rw [demands, demands, words_reword hplain htext, htext]
  by_cases hnegated : first = negatedDemand
  · left
    rw [if_pos hnegated, List.singleton_append, List.head?_cons]
  · right
    have hlength (list : List (List Char)) :
        (list.takeWhile isDemand).length = ((list.map isDemand).takeWhile id).length := by
      rw [List.takeWhile_map, List.length_map, Function.id_comp]
    rw [if_neg hnegated, List.nil_append, List.takeWhile_cons_of_pos hfirst, List.length_cons,
      hlength, map_isDemand_presentFirst hplain, ← hlength]

/-- Behind a "not" at the front nothing is a demand. -/
theorem length_demands_reword_of_isDemand (h : isDemand text.toList = true)
    (hagain : isDemand (reword tables text).toList = true) :
    (demands (reword tables text)).length + 1 = (demands text).length := by
  apply (head?_or_length_demands_reword hplain h).resolve_left
  obtain ⟨first, others, hwords, hfirst⟩ := exists_words_of_isDemand hagain
  rw [hwords, List.head?_cons, Option.some.injEq]
  rintro rfl
  cases isDemand_negation.symm.trans hfirst

theorem reword_ne (h : isDemand text.toList = true) : reword tables text ≠ text := by
  intro heq
  have hlength := length_demands_reword_of_isDemand hplain h (heq.symm ▸ h)
  rw [heq] at hlength
  omega

/-! ## All passes -/

/-- With every pass a demand goes, so there are at most as many passes as demands. -/
theorem exists_iterate_reword (h : isDemand text.toList = true) :
    ∃ passes ≤ (demands text).length,
      (∀ before < passes, isDemand ((reword tables)^[before] text).toList = true) ∧
      isDemand ((reword tables)^[passes] text).toList = false := by
  induction hcount : (demands text).length generalizing text with
  | zero =>
    obtain ⟨first, others, htext, hfirst⟩ := exists_words_of_isDemand h
    rw [demands, htext, List.takeWhile_cons_of_pos hfirst] at hcount
    cases hcount
  | succ count ih =>
    cases hagain : isDemand (reword tables text).toList with
    | false =>
      refine ⟨1, Nat.le_add_left 1 count, ?_, hagain⟩
      intro before hbefore
      rw [Nat.lt_one_iff.mp hbefore]
      exact h
    | true =>
      have hlength := length_demands_reword_of_isDemand hplain h hagain
      obtain ⟨passes, hle, hflagged, hclean⟩ := ih hagain (by omega)
      refine ⟨passes + 1, Nat.succ_le_succ hle, ?_, hclean⟩
      intro before hbefore
      cases before with
      | zero => exact h
      | succ before => exact hflagged before (Nat.lt_of_succ_lt_succ hbefore)

end Plain

/-- Without replacements of the user's every pass over a flagged description takes a demand from its
front or leaves a "not" there, so as many passes as it has demands leave nothing to report. -/
theorem reword_until_clean (tables : WordTables) (text : String) (hplain : tables.transforms = [])
    (htext : isDemand text.toList = true) :
    (∀ word, isDemand (present tables word) = isDemand word) ∧
    ((words (reword tables text).toList).head? = some negation ∨
      (demands (reword tables text)).length + 1 = (demands text).length) ∧
    reword tables text ≠ text ∧
    ∃ passes ≤ (demands text).length,
      (∀ before < passes, startsFlagged ((reword tables)^[before] text).toList = true) ∧
      startsFlagged ((reword tables)^[passes] text).toList = false := by
  simp only [startsFlagged_eq_isDemand]
  exact ⟨isDemand_present hplain, head?_or_length_demands_reword hplain htext,
    reword_ne hplain htext, exists_iterate_reword hplain htext⟩

/-- The second demand is an ignored "shouldn't" that comes to the front as it is. -/
theorem reword_until_clean_ignored :
    let tables : WordTables := { ignored := ["shouldn't"] }
    tables.transforms = [] ∧ isDemand "SHOULD shouldn't should go".toList = true ∧
      (demands "SHOULD shouldn't should go").length = 3 ∧
      reword tables "SHOULD shouldn't should go" = "shouldn't shoulds go" ∧
      ∃ passes ≤ 3, (∀ before < passes,
          startsFlagged ((reword tables)^[before] "SHOULD shouldn't should go").toList = true) ∧
        startsFlagged ((reword tables)^[passes] "SHOULD shouldn't should go").toList = false := by
  have hlength : (demands "SHOULD shouldn't should go").length = 3 := by decide +kernel
  have hdemand : isDemand "SHOULD shouldn't should go".toList = true := by decide +kernel
  obtain ⟨-, -, -, hpasses⟩ := reword_until_clean { ignored := ["shouldn't"] }
    "SHOULD shouldn't should go" rfl hdemand
  rw [hlength] at hpasses
  exact ⟨rfl, hdemand, hlength, by decide +kernel, hpasses⟩

end SpecWording.Wording
