import SpecWording.Wording.PresentTense

/-!
# The one word that changes

`presentFirst` changes the first word that is not ignored, so of a list in two parts it changes the
second part only if all words of the first one are ignored. The changed word is replaced by a text of
the user's or takes the ending of its third-person form. After "shouldn't" the word that changes may
also be the "not" that is left behind; then no other word does.
-/

namespace SpecWording.Wording

variable {tables : WordTables} {word form : List Char}

theorem presentFirst_append (front back : List (List Char)) :
    presentFirst tables (front ++ back) =
      if front.all tables.ignores then front ++ presentFirst tables back
      else presentFirst tables front ++ back := by
  induction front with
  | nil => rfl
  | cons word front ih =>
    rw [List.cons_append, presentFirst, ih, List.all_cons, presentFirst]
    cases tables.ignores word with
    | true => cases front.all tables.ignores <;> rfl
    | false => rfl

/-- All words but one stay as they are, and that one takes its present form. -/
theorem mem_presentFirst {others : List (List Char)} (h : form ∈ presentFirst tables others) :
    form ∈ others ∨ ∃ word ∈ others, form = present tables word := by
  induction others with
  | nil => exact .inl h
  | cons word others ih =>
    rw [presentFirst] at h
    split at h
    · rcases List.mem_cons.mp h with rfl | h
      · exact .inl List.mem_cons_self
      · rcases ih h with hmem | ⟨other, hmem, rfl⟩
        · exact .inl (List.mem_cons_of_mem _ hmem)
        · exact .inr ⟨other, List.mem_cons_of_mem _ hmem, rfl⟩
    · rcases List.mem_cons.mp h with rfl | h
      · exact .inr ⟨word, List.mem_cons_self, rfl⟩
      · exact .inl (List.mem_cons_of_mem _ h)

/-- A replacement comes from an entry of the table. -/
theorem exists_entry_of_transform? (h : tables.transform? word = some form) :
    ∃ entry ∈ tables.transforms, entry.2.toList = form := by
  obtain ⟨replacement, hlookup, rfl⟩ := Option.map_eq_some_iff.mp h
  obtain ⟨front, back, heq, -⟩ := List.lookup_eq_some_iff.mp hlookup
  exact ⟨_, heq ▸ List.mem_append_right front List.mem_cons_self, rfl⟩

/-- The third-person form keeps the word up to a final "y" and has one of three endings. -/
theorem exists_stem_suffixForm (word : List Char) : ∃ stem ending,
    suffixForm word = stem ++ ending ∧ (word = stem ∨ word = stem ++ ['y']) ∧
      ending ∈ [['s'], ['e', 's'], ['i', 'e', 's']] := by
  unfold suffixForm
  split
  · exact ⟨word, ['e', 's'], rfl, .inl rfl, by simp⟩
  · split
    · next stem hreverse =>
      split
      · exact ⟨word, ['s'], rfl, .inl rfl, by simp⟩
      · refine ⟨stem.reverse, ['i', 'e', 's'], rfl, .inr ?_, by simp⟩
        rw [← List.reverse_cons, ← hreverse, List.reverse_reverse]
    · exact ⟨word, ['s'], rfl, .inl rfl, by simp⟩

/-! ## Behind the first word -/

/-- The replacement of a "not" that is left behind. -/
def negationForm? (tables : WordTables) : Option (List Char) :=
  if tables.ignores negation then none else tables.transform? negation

theorem rewordWords_of_ne {first : List Char} (h : first ≠ negatedDemand)
    (others : List (List Char)) :
    rewordWords tables (first :: others) = presentFirst tables others := by
  rw [rewordWords, if_neg h]

theorem rewordWords_negatedDemand (others : List (List Char)) :
    rewordWords tables (negatedDemand :: others) =
      match negationForm? tables with
      | some form => form :: others
      | none => negation :: presentFirst tables others := by
  rw [rewordWords, if_pos rfl, negationForm?]
  cases tables.transform? negation <;> cases tables.ignores negation <;> rfl

end SpecWording.Wording
