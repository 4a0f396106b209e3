import SpecWording.Proofs.Text.Runs
import SpecWording.Proofs.Wording.PresentTense

/-!
# One word changes

A description is reworded word by word: how its words are spaced is lost, and what comes out has
single spaces. The first word goes, and at most one of the others changes. That is the first one that
is not ignored, or else the "not" that a "shouldn't" leaves behind, and then the others stay as they
are.
-/

namespace SpecWording.Wording

open Text (HasWords unwords words)

variable {tables : WordTables} {word : List Char} {kept others changed : List (List Char)}

/-- Words with one space between them. -/
def spaced (words : List (List Char)) : String := " ".intercalate (words.map String.ofList)

theorem ofList_unwords (texts : List (List Char)) :
    String.ofList (unwords texts) = spaced texts := by
  have hletters : (texts.map String.ofList).map String.toList = texts := by
    rw [List.map_map]
    exact List.map_id'' (fun _ ↦ String.toList_ofList) texts
  rw [← String.toList_inj, spaced, String.toList_intercalate, hletters, String.toList_ofList,
    unwords, Text.joinFields_eq_intercalate]
  rfl

/-- What becomes of words of which the first one that is not ignored takes its third-person form:
the one of the table, or else the one that its ending gives. -/
inductive FirstChanged (tables : WordTables) : List (List Char) → List (List Char) → Prop
  | nowhere {words : List (List Char)} (hwords : ∀ word ∈ words, tables.ignores word = true) :
      FirstChanged tables words words
  | behind {kept : List (List Char)} (hkept : ∀ word ∈ kept, tables.ignores word = true)
      {word : List Char} (hword : tables.ignores word = false) (rest : List (List Char)) :
      FirstChanged tables (kept ++ word :: rest)
        (kept ++ (tables.transform? word).getD (suffixForm word) :: rest)

theorem FirstChanged.cons (hword : tables.ignores word = true)
    (h : FirstChanged tables others changed) :
    FirstChanged tables (word :: others) (word :: changed) := by
  cases h with
  | nowhere hwords => exact .nowhere (List.forall_mem_cons.mpr ⟨hword, hwords⟩)
  | behind hkept hother rest => exact .behind (List.forall_mem_cons.mpr ⟨hword, hkept⟩) hother rest

theorem firstChanged_presentFirst (tables : WordTables) (others : List (List Char)) :
    FirstChanged tables others (presentFirst tables others) := by
  induction others with
  | nil => exact .nowhere (List.forall_mem_nil _)
  | cons word others ih =>
    rw [presentFirst]
    cases hword : tables.ignores word with
    | true => exact .cons hword ih
    | false => exact .behind (List.forall_mem_nil _) hword others

theorem reword_of_hasWords {text : String} {given : List (List Char)}
    (h : HasWords text.toList given) :
    reword tables text = spaced (rewordWords tables given) := by
  rw [reword, Text.hasWords_iff.mp h, ofList_unwords]

/-- A description is reworded by its words alone. -/
theorem reword_changes_one_word (tables : WordTables) (text : String) (given : List (List Char))
    (h : HasWords text.toList given) :
    (∀ other : String, HasWords other.toList given → reword tables other = reword tables text) ∧
      (given.length ≤ 1 → negatedDemand ∉ given → reword tables text = "") ∧
      ∀ first others, given = first :: others →
        (∀ form, first = negatedDemand → tables.transform? negation = some form →
          tables.ignores negation = false → reword tables text = spaced (form :: others)) ∧
        ((first = negatedDemand → tables.transform? negation = none ∨
            tables.ignores negation = true) →
          ∃ changed, FirstChanged tables others changed ∧ reword tables text =
            spaced ((if first = negatedDemand then [negation] else []) ++ changed)) := by
  have htext : reword tables text = spaced (rewordWords tables given) := reword_of_hasWords h
  refine ⟨fun other hother ↦ (reword_of_hasWords hother).trans htext.symm, ?_, ?_⟩
  · intro hlength hdemand
    rw [htext]
    cases given with
    | nil => rfl
    | cons first others =>
      have hothers : others = [] := by
        rw [List.length_cons] at hlength
        exact List.eq_nil_of_length_eq_zero (by omega)
      rw [hothers, rewordWords_of_ne (List.ne_of_not_mem_cons hdemand).symm]
      rfl
  · rintro first others rfl
    rw [htext]
    constructor
    · rintro form rfl hform hignored
      rw [rewordWords_negatedDemand, negationForm?, hignored, if_neg Bool.false_ne_true, hform]
    · intro hkept
      refine ⟨presentFirst tables others, firstChanged_presentFirst tables others, ?_⟩
      by_cases hfirst : first = negatedDemand
      · have hform : negationForm? tables = none := by
          rcases hkept hfirst with hnone | hignored <;> simp [negationForm?, *]
        rw [if_pos hfirst, hfirst, rewordWords_negatedDemand, hform, List.singleton_append]
      · rw [if_neg hfirst, rewordWords_of_ne hfirst, List.nil_append]

/-- Tables with an entry for a "not" that is ignored all the same. -/
def stubbornTables : WordTables where
  transforms := [("not", "never"), ("work", "do it")]
  ignored := ["not", "really"]

theorem reword_changes_one_word_stubborn :
    HasWords "  shouldn't\treally\nwork  well ".toList
        ["shouldn't".toList, "really".toList, "work".toList, "well".toList] ∧
      reword stubbornTables "  shouldn't\treally\nwork  well " = "not really do it well" ∧
      reword stubbornTables "shouldn't really work well" = "not really do it well" ∧
      ∃ changed,
        FirstChanged stubbornTables ["really".toList, "work".toList, "well".toList] changed ∧
        reword stubbornTables "  shouldn't\treally\nwork  well " =
          spaced (negation :: changed) ∧
      reword { stubbornTables with ignored := [] } "shouldn't really work well" =
        "never really work well" := by
  have hwords : HasWords "  shouldn't\treally\nwork  well ".toList
      ["shouldn't".toList, "really".toList, "work".toList, "well".toList] :=
    Text.hasWords_iff.mpr (by decide)
  have hplain : HasWords "shouldn't really work well".toList
      ["shouldn't".toList, "really".toList, "work".toList, "well".toList] :=
    Text.hasWords_iff.mpr (by decide)
  have hreword : reword stubbornTables "  shouldn't\treally\nwork  well " =
      "not really do it well" := by
    decide
  obtain ⟨hspacing, -, hothers⟩ := reword_changes_one_word stubbornTables _ _ hwords
  obtain ⟨changed, hchanged, hresult⟩ := (hothers _ _ rfl).2 (fun _ ↦ .inr (by decide))
  obtain ⟨-, -, hentry⟩ :=
    reword_changes_one_word { stubbornTables with ignored := [] } _ _ hplain
  have hnever := (hentry _ _ rfl).1 "never".toList rfl (by decide) (by decide)
  exact ⟨hwords, hreword, (hspacing _ hplain).trans hreword, changed, hchanged, hresult,
    hnever.trans (by decide)⟩

end SpecWording.Wording
