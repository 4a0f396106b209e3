import SpecWording.Proofs.Text.Quoting
import SpecWording.Proofs.Wording.FlaggedStart

/-!
# Rewording between quotes

A description is reworded as it is written, escapes included. No escape is torn apart between two
words, for the space that joins them takes the place of the blank that was escaped. Behind the last
word there is no such space: if it ends in a backslash for a blank at the end of the description and
stays as it is, then the backslash is left to consume the closing quote. This is the only way in
which a reworded literal loses its end, as long as no replacement brings quotes or backslashes.
-/

namespace SpecWording.Wording

open Text (Span words unwords WellDelimited StaysOpen IsQuote endsEscaped)

variable {tables : WordTables} {quote : Char} {word : List Char}

/-- Whether the last word is not the one that takes its present form. -/
def keepsLast (tables : WordTables) (others : List (List Char)) : Bool :=
  others.getLast?.any tables.ignores || !others.dropLast.all tables.ignores

/-- Whether rewording strands the backslash of an escaped blank at the end of a description. -/
def strandsEscape (tables : WordTables) (description : String) : Bool :=
  match words description.toList with
  | [] => false
  | first :: others => others.getLast?.any endsEscaped &&
      (first == negatedDemand && (negationForm? tables).isSome || keepsLast tables others)

theorem any_getLast?_cons {p : List Char → Bool} (h : p word = false)
    (others : List (List Char)) : (word :: others).getLast?.any p = others.getLast?.any p := by
  cases others with
  | nil => simp [h]
  | cons other others => rw [List.getLast?_cons_cons]

/-! ## The words of a reworded description -/

theorem wellDelimited_negation (hquote : IsQuote quote) : WellDelimited quote negation := by
  rcases hquote with rfl | rfl <;> decide

theorem wellDelimited_suffixForm (hquote : IsQuote quote) (h : StaysOpen quote word) :
    WellDelimited quote (suffixForm word) := by
  obtain ⟨stem, ending, hform, hword, hending⟩ := exists_stem_suffixForm word
  have hstem : StaysOpen quote stem := by
    rcases hword with rfl | rfl
    · exact h
    · exact h.of_append
  have hletters : ∀ c ∈ ending, c ≠ quote ∧ c ≠ '\\' := by
    simp only [List.mem_cons, List.not_mem_nil, or_false] at hending
    rcases hquote with rfl | rfl <;> rcases hending with rfl | rfl | rfl <;> simp
  rw [hform]
  cases ending with
  | nil => simp at hending
  | cons c ending =>
    obtain ⟨⟨hc, hescape⟩, hrest⟩ := List.forall_mem_cons.mp hletters
    rw [WellDelimited, Text.after_append_cons hstem hescape hc]
    exact Text.wellDelimited_of_forall hrest

section

variable (hquote : IsQuote quote)
  (hforms : ∀ entry ∈ tables.transforms, ∀ c ∈ entry.2.toList, c ≠ quote ∧ c ≠ '\\')

include hforms in
theorem wellDelimited_transform? {form : List Char} (h : tables.transform? word = some form) :
    WellDelimited quote form := by
  obtain ⟨entry, hmem, rfl⟩ := exists_entry_of_transform? h
  exact Text.wellDelimited_of_forall (hforms entry hmem)

include hforms in
theorem wellDelimited_negationForm? {form : List Char} (h : negationForm? tables = some form) :
    WellDelimited quote form :=
  wellDelimited_transform? hforms (Option.ite_none_left_eq_some.mp h).2

include hquote hforms

theorem wellDelimited_present (h : StaysOpen quote word) :
    WellDelimited quote (present tables word) := by
  unfold present
  cases hform : tables.transform? word with
  | none => exact wellDelimited_suffixForm hquote h
  | some form => exact wellDelimited_transform? hforms hform

theorem staysOpen_of_mem_presentFirst {others : List (List Char)} {form : List Char}
    (hothers : ∀ word ∈ others, StaysOpen quote word) (h : form ∈ presentFirst tables others) :
    StaysOpen quote form := by
  rcases mem_presentFirst h with hmem | ⟨word, hmem, rfl⟩
  · exact hothers form hmem
  · exact (wellDelimited_present hquote hforms (hothers word hmem)).staysOpen

theorem staysOpen_of_mem_rewordWords {given : List (List Char)} {form : List Char}
    (hgiven : ∀ word ∈ given, StaysOpen quote word) (h : form ∈ rewordWords tables given) :
    StaysOpen quote form := by
  cases given with
  | nil => simp [rewordWords] at h
  | cons first others =>
    have hothers := (List.forall_mem_cons.mp hgiven).2
    have hpresent : form ∈ presentFirst tables others → StaysOpen quote form :=
      staysOpen_of_mem_presentFirst hquote hforms hothers
    by_cases hfirst : first = negatedDemand
    · rw [hfirst, rewordWords_negatedDemand] at h
      cases hreplacement : negationForm? tables with
      | none =>
        rw [hreplacement] at h
        rcases List.mem_cons.mp h with rfl | h
        · exact (wellDelimited_negation hquote).staysOpen
        · exact hpresent h
      | some replacement =>
        rw [hreplacement] at h
        rcases List.mem_cons.mp h with rfl | h
        · exact (wellDelimited_negationForm? hforms hreplacement).staysOpen
        · exact hothers form h
    · rw [rewordWords_of_ne hfirst] at h
      exact hpresent h

/-! ## The last word of a reworded description -/

theorem endsEscaped_last_presentFirst {others : List (List Char)}
    (hothers : ∀ word ∈ others, StaysOpen quote word) :
    (presentFirst tables others).getLast?.any endsEscaped =
      (others.getLast?.any endsEscaped && keepsLast tables others) := by
  induction others using List.reverseRecOn with
  | nil => rfl
  | append_singleton front last =>
    have hlast : StaysOpen quote last := hothers last (by simp)
    have hpresent : endsEscaped (present tables last) = false :=
      have hdelimited := wellDelimited_present hquote hforms hlast
      (Text.wellDelimited_iff hdelimited.staysOpen).mp hdelimited
    rw [presentFirst_append, keepsLast, List.getLast?_concat, List.dropLast_concat]
    cases front.all tables.ignores with
    | true =>
      rw [if_pos rfl, presentFirst]
      cases hignored : tables.ignores last with
      | true => simp [presentFirst, hignored]
      | false => simp [hignored, hpresent]
    | false => simp

/-- The last word of a reworded description waits for another character if an escape strands. -/
theorem endsEscaped_last_rewordWords {first : List Char} {others : List (List Char)}
    (hothers : ∀ word ∈ others, StaysOpen quote word) :
    (rewordWords tables (first :: others)).getLast?.any endsEscaped =
      (others.getLast?.any endsEscaped &&
        (first == negatedDemand && (negationForm? tables).isSome || keepsLast tables others)) := by
  have hpresent := endsEscaped_last_presentFirst hquote hforms hothers
  by_cases hfirst : first = negatedDemand
  · rw [hfirst, rewordWords_negatedDemand]
    cases hform : negationForm? tables with
    | none => simp [any_getLast?_cons (show endsEscaped negation = false by decide), hpresent]
    | some form =>
      have hdelimited := wellDelimited_negationForm? hforms hform
      have hplain := (Text.wellDelimited_iff hdelimited.staysOpen).mp hdelimited
      simp [any_getLast?_cons hplain]
  · rw [rewordWords_of_ne hfirst, hpresent, beq_eq_false_iff_ne.mpr hfirst, Bool.false_and,
      Bool.false_or]

end

/-- A reworded description still ends at its own closing quote unless it strands an escape. -/
theorem wellDelimited_reword_iff (tables : WordTables) (quote : Char) (description : String)
    (hquote : IsQuote quote) (hdescription : WellDelimited quote description.toList)
    (hforms : ∀ entry ∈ tables.transforms, ∀ c ∈ entry.2.toList, c ≠ quote ∧ c ≠ '\\') :
    WellDelimited quote (reword tables description).toList ↔
      strandsEscape tables description = false := by
  have hgiven : ∀ word ∈ words description.toList, StaysOpen quote word :=
    fun word ↦ Text.staysOpen_of_mem_words hquote hdescription.staysOpen
  have hreworded : ∀ form ∈ rewordWords tables (words description.toList), StaysOpen quote form :=
    fun form ↦ staysOpen_of_mem_rewordWords hquote hforms hgiven
  rw [reword, String.toList_ofList, Text.wellDelimited_unwords_iff hquote hreworded, strandsEscape]
  cases hwords : words description.toList with
  | nil => simp [rewordWords]
  | cons first others =>
    rw [hwords] at hgiven
    rw [endsEscaped_last_rewordWords hquote hforms (List.forall_mem_cons.mp hgiven).2]

/-- A space that is escaped within a description stays escaped. -/
theorem wellDelimited_reword_inside :
    strandsEscape {} "should find\\ it" = false ∧
      WellDelimited '"' (reword {} "should find\\ it").toList :=
  have hkept : strandsEscape {} "should find\\ it" = false := by decide +kernel
  ⟨hkept, (wellDelimited_reword_iff {} '"' "should find\\ it" (by decide) (by decide +kernel)
    (by decide)).mpr hkept⟩

/-- A space that is escaped at the end of a description leaves its backslash to the quote. -/
theorem not_wellDelimited_reword_blank_end :
    (detect "it('should find it\\ ') {}" (calledExample "should find it\\ ")).map Span.text =
        some "should find it\\ " ∧
      WellDelimited '\'' "should find it\\ ".toList ∧
      reword {} "should find it\\ " = "finds it\\" ∧
      ¬ WellDelimited '\'' "finds it\\".toList ∧
      WellDelimited '"' "should find it\\ ".toList ∧
      ¬ WellDelimited '"' "finds it\\".toList := by
  decide +kernel

end SpecWording.Wording
