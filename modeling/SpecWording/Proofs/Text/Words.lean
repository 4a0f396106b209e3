import SpecWording.Text.Fields

/-!
# Words and blanks

A blank cuts a text into two texts with words of their own, and a text without blanks is one word.
All else about words follows from these two facts by cutting a text at its first blank; among it,
that joining texts with single spaces joins their words.
-/

namespace SpecWording.Text

variable {c : Char} {word text : List Char}

/-- A stretch of a text that can be one of its words. -/
def IsWord (word : List Char) : Prop := word ≠ [] ∧ ∀ c ∈ word, isBlank c = false

@[simp] theorem words_nil : words [] = [] := rfl

theorem words_cons_of_isBlank (h : isBlank c = true) (cs : List Char) :
    words (c :: cs) = words cs := by
  cases cs <;> simp [words, h]

theorem words_singleton (h : isBlank c = false) : words [c] = [[c]] := by simp [words, h]

/-- A character before a blank is a word, for the text starts with it. -/
theorem words_cons_cons_of_isBlank {next : Char} (h : isBlank c = false)
    (hnext : isBlank next = true) (cs : List Char) :
    words (c :: next :: cs) = [c] :: words (next :: cs) := by
  rw [words.eq_def]
  simp [h, hnext]

theorem words_cons_cons {next : Char} {others : List (List Char)} (h : isBlank c = false)
    (hnext : isBlank next = false) {cs : List Char} (hwords : words (next :: cs) = word :: others) :
    words (c :: next :: cs) = (c :: word) :: others := by
  rw [words.eq_def]
  simp [h, hnext, hwords]

/-- A text that starts with a word has one. -/
theorem exists_words_cons (h : isBlank c = false) (cs : List Char) :
    ∃ word others, words (c :: cs) = word :: others := by
  induction cs generalizing c with
  | nil => exact ⟨[c], [], words_singleton h⟩
  | cons next cs ih =>
    cases hnext : isBlank next with
    | true => exact ⟨[c], _, words_cons_cons_of_isBlank h hnext cs⟩
    | false =>
      obtain ⟨word, others, hwords⟩ := ih hnext
      exact ⟨c :: word, others, words_cons_cons h hnext hwords⟩

/-- The words of a text that is cut at a blank are those of the two parts. -/
theorem words_append_cons (h : isBlank c = true) (front back : List Char) :
    words (front ++ c :: back) = words front ++ words back := by
  induction front with
  | nil => exact words_cons_of_isBlank h back
  | cons d front ih =>
    cases hd : isBlank d with
    | true => rw [List.cons_append, words_cons_of_isBlank hd, words_cons_of_isBlank hd, ih]
    | false =>
      cases front with
      | nil =>
        rw [List.singleton_append, words_cons_cons_of_isBlank hd h, words_cons_of_isBlank h,
          words_singleton hd, List.singleton_append]
      | cons next front =>
        cases hnext : isBlank next with
        | true =>
          rw [List.cons_append, List.cons_append, words_cons_cons_of_isBlank hd hnext,
            words_cons_cons_of_isBlank hd hnext, ← List.cons_append, ih, List.cons_append]
        | false =>
          obtain ⟨word, others, hwords⟩ := exists_words_cons hnext front
          rw [hwords, List.cons_append, List.cons_append] at ih
          rw [List.cons_append, List.cons_append, words_cons_cons hd hnext ih,
            words_cons_cons hd hnext hwords, List.cons_append]

theorem words_of_isWord (h : IsWord word) : words word = [word] := by
  obtain ⟨hne, hsolid⟩ := h
  induction word with
  | nil => exact absurd rfl hne
  | cons c word ih =>
    obtain ⟨hc, hword⟩ := List.forall_mem_cons.mp hsolid
    cases word with
    | nil => exact words_singleton hc
    | cons next word =>
      have hnext : isBlank next = false := hword next List.mem_cons_self
      exact words_cons_cons hc hnext (ih (by simp) hword)

/-- To prove something of all texts, it suffices to cut off what stands before the first blank. -/
theorem induction_on_blanks {motive : List Char → Prop}
    (solid : ∀ front, (∀ c ∈ front, isBlank c = false) → motive front)
    (cut : ∀ front c back, (∀ c ∈ front, isBlank c = false) → isBlank c = true → motive back →
      motive (front ++ c :: back))
    (text : List Char) : motive text := by
  suffices h : ∀ front, (∀ c ∈ front, isBlank c = false) → motive (front ++ text) from
    h [] (by simp)
  induction text with
  | nil =>
    intro front hfront
    rw [List.append_nil]
    exact solid front hfront
  | cons c text ih =>
    intro front hfront
    cases hc : isBlank c with
    | true => exact cut front c text hfront hc (ih [] (by simp))
    | false =>
      rw [List.append_cons]
      apply ih
      intro d hd
      rcases List.mem_append.mp hd with hd | hd
      · exact hfront d hd
      · rw [List.mem_singleton.mp hd, hc]

/-- A text without blanks has itself as its only word, if it is not empty. -/
theorem eq_of_mem_words_solid (hsolid : ∀ c ∈ text, isBlank c = false) (h : word ∈ words text) :
    IsWord text ∧ word = text := by
  have htext : IsWord text := by
    refine ⟨?_, hsolid⟩
    rintro rfl
    simp at h
  rw [words_of_isWord htext] at h
  exact ⟨htext, List.mem_singleton.mp h⟩

theorem isWord_of_mem_words (h : word ∈ words text) : IsWord word := by
  induction text using induction_on_blanks with
  | solid front hfront =>
    obtain ⟨hword, rfl⟩ := eq_of_mem_words_solid hfront h
    exact hword
  | cut front c back hfront hc ih =>
    rw [words_append_cons hc, List.mem_append] at h
    rcases h with h | h
    · obtain ⟨hword, rfl⟩ := eq_of_mem_words_solid hfront h
      exact hword
    · exact ih h

theorem unwords_cons_cons (text next : List Char) (texts : List (List Char)) :
    unwords (text :: next :: texts) = text ++ ' ' :: unwords (next :: texts) := by
  rw [unwords, joinFields, List.append_assoc, List.singleton_append, unwords]

/-- Texts that are joined with single spaces keep their words. -/
theorem words_unwords (texts : List (List Char)) :
    words (unwords texts) = texts.flatMap words := by
  induction texts with
  | nil => rfl
  | cons text texts ih =>
    cases texts with
    | nil => simp [unwords, joinFields]
    | cons next texts =>
      calc
        _ = words (text ++ ' ' :: unwords (next :: texts)) := by rw [unwords_cons_cons]
        _ = words text ++ words (unwords (next :: texts)) := words_append_cons rfl _ _
        _ = _ := by rw [ih, ← List.flatMap_cons]

/-- Words have no words but themselves. -/
theorem flatMap_words {texts : List (List Char)} (h : ∀ word ∈ texts, IsWord word) :
    texts.flatMap words = texts := by
  induction texts with
  | nil => rfl
  | cons word texts ih =>
    obtain ⟨hword, htexts⟩ := List.forall_mem_cons.mp h
    rw [List.flatMap_cons, words_of_isWord hword, ih htexts, List.singleton_append]

end SpecWording.Text
