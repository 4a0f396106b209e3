import SpecWording.Proofs.Text.Quoting
import SpecWording.Proofs.Wording.Autocorrection
import SpecWording.Proofs.Wording.FlaggedStart

/-!
# Negated descriptions

A "shouldn't" leaves a "not" behind if the description has it letter by letter. The rule reads a
description as it is written, and between single quotes an apostrophe is written with a backslash:
there the comparison never holds, and a negated description loses its negation.
-/

namespace SpecWording.Wording

open Syntax (Node)
open Text (Span words unwords WellDelimited IsQuote IsWord)

variable {tables : WordTables} {quote : Char} {word : List Char}

/-- Whether the words behind the first one come to start with a "not" of their own. A replacement
may consist of several words or of none. -/
def bringsNegation (tables : WordTables) : List (List Char) → Bool
  | [] => false
  | next :: others =>
    if tables.ignores next then next == negation
    else match tables.transform? next with
      | some form => (words form ++ others).head? == some negation
      | none => false

/-! ## The first word of a reworded description -/

theorem isWord_suffixForm (h : IsWord word) : IsWord (suffixForm word) := by
  obtain ⟨stem, ending, hform, hword, hending⟩ := exists_stem_suffixForm word
  have hstem : ∀ c ∈ stem, Text.isBlank c = false := by
    intro c hc
    rcases hword with rfl | rfl
    · exact h.2 c hc
    · exact h.2 c (List.mem_append_left _ hc)
  have hletters : ending ≠ [] ∧ ∀ c ∈ ending, Text.isBlank c = false := by
    simp only [List.mem_cons, List.not_mem_nil, or_false] at hending
    rcases hending with rfl | rfl | rfl <;> simp [Text.isBlank]
  rw [hform]
  refine ⟨List.append_ne_nil_of_right_ne_nil _ hletters.1, fun c hc ↦ ?_⟩
  rcases List.mem_append.mp hc with hc | hc
  · exact hstem c hc
  · exact hletters.2 c hc

theorem isWord_negation : IsWord negation := by
  have hletters : negation = ['n', 'o', 't'] := rfl
  simp [IsWord, hletters, Text.isBlank]

theorem suffixForm_ne_negation (word : List Char) : suffixForm word ≠ negation := by
  obtain ⟨stem, ending, hform, -, hending⟩ := exists_stem_suffixForm word
  have hlast : (stem ++ ending).getLast? = some 's' := by
    simp only [List.mem_cons, List.not_mem_nil, or_false] at hending
    rcases hending with rfl | rfl | rfl <;> simp
  intro heq
  rw [← hform, heq] at hlast
  exact absurd hlast (by decide)

theorem head?_words_presentFirst {others : List (List Char)} (h : ∀ word ∈ others, IsWord word) :
    (words (unwords (presentFirst tables others))).head? = some negation ↔
      bringsNegation tables others = true := by
  rw [Text.words_unwords]
  cases others with
  | nil => simp [presentFirst, bringsNegation]
  | cons next others =>
    obtain ⟨hnext, hothers⟩ := List.forall_mem_cons.mp h
    rw [presentFirst, bringsNegation]
    split
    · rw [List.flatMap_cons, Text.words_of_isWord hnext, List.singleton_append, List.head?_cons]
      simp
    · rw [List.flatMap_cons, Text.flatMap_words hothers, present]
      cases tables.transform? next with
      | none =>
        rw [Option.getD_none, Text.words_of_isWord (isWord_suffixForm hnext)]
        simp [suffixForm_ne_negation]
      | some form => simp

theorem not_staysOpen_negatedDemand : ¬ Text.StaysOpen '\'' negatedDemand := by
  simp only [Text.StaysOpen]
  decide

/-- A literal in single quotes never has "shouldn't" as a word of its own. -/
theorem eq_doubleQuote_of_mem_words {body : List Char} (hquote : IsQuote quote)
    (hbody : WellDelimited quote body) (h : negatedDemand ∈ words body) : quote = '"' := by
  apply hquote.resolve_left
  rintro rfl
  exact not_staysOpen_negatedDemand (Text.staysOpen_of_mem_words hquote hbody.staysOpen h)

theorem head?_words_reword {description : String} (hquote : IsQuote quote)
    (hdescription : WellDelimited quote description.toList)
    (hnegation : tables.transform? negation = none) :
    (words (reword tables description).toList).head? = some negation ↔
      quote = '"' ∧ (words description.toList).head? = some negatedDemand ∨
        bringsNegation tables (words description.toList).tail = true := by
  have hgiven : ∀ word ∈ words description.toList, IsWord word :=
    fun word ↦ Text.isWord_of_mem_words
  have hdouble := eq_doubleQuote_of_mem_words hquote hdescription
  rw [reword, String.toList_ofList]
  cases hwords : words description.toList with
  | nil => simp [rewordWords, unwords, Text.joinFields, bringsNegation]
  | cons first others =>
    rw [hwords] at hgiven hdouble
    by_cases hfirst : first = negatedDemand
    · have hkept : negationForm? tables = none := by simp [negationForm?, hnegation]
      rw [hfirst, rewordWords_negatedDemand, hkept, Text.words_unwords, List.flatMap_cons,
        Text.words_of_isWord isWord_negation]
      simp [hdouble (hfirst ▸ List.mem_cons_self)]
    · rw [rewordWords_of_ne hfirst,
        head?_words_presentFirst (List.forall_mem_cons.mp hgiven).2]
      simp [hfirst]

/-! ## The correction -/

/-- The correction of a description without an entry for "not" starts with "not" in two cases: the
literal has double quotes and starts with the word "shouldn't", or the next word brings a "not". -/
theorem correct_negation_iff (severity : Severity) (tables : WordTables) (file : SourceFile)
    (node : Node) (span : Span) (quote : Char) (hquote : IsQuote quote)
    (hdetect : detect file.content node = some span) (hspan : WellDelimited quote span.content)
    (hnegation : tables.transform? negation = none) :
    ∃ violation replacement,
      (exampleRule severity tables).check file node = some violation ∧
      (exampleRule severity tables).correct file violation = some replacement ∧
      replacement.location = file.location span ∧
      ((words replacement.newText.toList).head? = some negation ↔
        quote = '"' ∧ (words span.content).head? = some negatedDemand ∨
          bringsNegation tables (words span.content).tail = true) := by
  have hcheck : (exampleRule severity tables).check file node =
      some (offence severity file span) := by
    rw [check_exampleRule, hdetect, Option.map_some]
  have hcorrect : (exampleRule severity tables).correct file (offence severity file span) =
      some (rewording tables file span) :=
    correct_exampleRule (source_eq_of_detect hdetect) rfl
  have htext : span.text.toList = span.content := String.toList_ofList
  refine ⟨offence severity file span, rewording tables file span, hcheck, hcorrect, rfl, ?_⟩
  rw [← htext] at hspan ⊢
  exact head?_words_reword hquote hspan hnegation

/-- A file with the example of `calledExample`, given its literal. -/
def exampleFile (literal : String) : SourceFile := ⟨⟨"a_spec.rb"⟩, "it(" ++ literal ++ ") {}"⟩

theorem correct_negation_double : ∃ violation replacement,
    (exampleRule .warning {}).check (exampleFile "\"shouldn't work\"")
      (calledExample "shouldn't work") = some violation ∧
    (exampleRule .warning {}).correct (exampleFile "\"shouldn't work\"") violation =
      some replacement ∧
    (words replacement.newText.toList).head? = some negation := by
  obtain ⟨violation, replacement, hcheck, hcorrect, -, hiff⟩ :=
    correct_negation_iff .warning {} (exampleFile "\"shouldn't work\"")
      (calledExample "shouldn't work")
      ⟨"it(\"".toList, "shouldn't work".toList, "\") {}".toList⟩ '"' (.inr rfl)
      (by decide +kernel) (by decide +kernel) rfl
  exact ⟨violation, replacement, hcheck, hcorrect, hiff.mpr (.inl ⟨rfl, by decide⟩)⟩

/-- The text that a literal in single quotes stands for: a backslash is written twice, and a quote
behind a backslash. -/
def singleQuoted : List Char → List Char
  | '\\' :: '\\' :: body => '\\' :: singleQuoted body
  | '\\' :: '\'' :: body => '\'' :: singleQuoted body
  | c :: body => c :: singleQuoted body
  | [] => []

theorem correct_negation_single :
    singleQuoted "shouldn\\'t work".toList = "shouldn't work".toList ∧
      (words "shouldn't work".toList).head? = some negatedDemand ∧
      WellDelimited '\'' "shouldn\\'t work".toList ∧
      (((exampleRule .warning {}).check (exampleFile "'shouldn\\'t work'")
          (calledExample "shouldn\\'t work")).bind
        ((exampleRule .warning {}).correct (exampleFile "'shouldn\\'t work'"))).map
          Replacement.newText = some "works" := by
  decide +kernel

end SpecWording.Wording
