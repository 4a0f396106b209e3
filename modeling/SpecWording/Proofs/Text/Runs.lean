import Mathlib.Data.List.Sort
import SpecWording.Proofs.Text.Words

/-!
# Words as runs

A run is a longest stretch of a text without a blank. The words of a text are its runs from the left
to the right: what stands before the first blank is a run by itself, and every run behind that blank
is a run of the text that follows it.
-/

namespace SpecWording.Text

/-- A longest stretch of a text without a blank: on each side of it stands a blank or nothing. -/
structure IsRun (text before word after : List Char) : Prop where
  text_eq : text = before ++ (word ++ after)
  isWord : IsWord word
  blank_before : ∀ c ∈ before.getLast?, isBlank c = true
  blank_after : ∀ c ∈ after.head?, isBlank c = true

/-- Whether the first of two stretches, given with the text before them, starts first. -/
def StartsFirst (a b : List Char × List Char) : Prop := a.1.length < b.1.length

instance : Std.Irrefl StartsFirst := ⟨fun _ ↦ Nat.lt_irrefl _⟩

instance : Std.Antisymm StartsFirst := ⟨fun _ _ hab hba ↦ (Nat.lt_asymm hab hba).elim⟩

/-- Whether a list has the runs of a text from the left to the right. -/
def HasWords (text : List Char) (found : List (List Char)) : Prop :=
  ∃ runs : List (List Char × List Char), runs.map Prod.snd = found ∧ runs.Pairwise StartsFirst ∧
    ∀ before word, (before, word) ∈ runs ↔ ∃ after, IsRun text before word after

variable {c : Char} {text front back before word after : List Char} {found : List (List Char)}

/-! ## Runs and blanks -/

theorem eq_nil_of_blank_first (hsolid : ∀ c ∈ front, isBlank c = false)
    (hblank : ∀ c ∈ (front ++ back).head?, isBlank c = true) : front = [] := by
  cases front with
  | nil => rfl
  | cons c front =>
    have hc := hblank c rfl
    rw [hsolid c List.mem_cons_self] at hc
    cases hc

theorem eq_nil_of_blank_last (hsolid : ∀ c ∈ back, isBlank c = false)
    (hblank : ∀ c ∈ back.getLast?, isBlank c = true) : back = [] := by
  cases hlast : back.getLast? with
  | none => exact List.getLast?_eq_none_iff.mp hlast
  | some c =>
    have hc := hblank c hlast
    rw [hsolid c (List.mem_of_getLast? hlast)] at hc
    cases hc

/-- The run at the start of a text ends before the first blank. -/
theorem isRun_nil_iff (hsolid : ∀ c ∈ front, isBlank c = false)
    (hback : ∀ c ∈ back.head?, isBlank c = true) :
    IsRun (front ++ back) [] word after ↔ IsWord front ∧ word = front ∧ after = back := by
  constructor
  · rintro ⟨htext, hword, -, hafter⟩
    rw [List.nil_append] at htext
    rcases List.append_eq_append_iff.mp htext with ⟨middle, rfl, rfl⟩ | ⟨middle, rfl, rfl⟩
    · have hmiddle : middle = [] :=
        eq_nil_of_blank_first (fun c hc ↦ hword.2 c (List.mem_append_right _ hc)) hback
      rw [hmiddle, List.append_nil] at hword
      rw [hmiddle]
      exact ⟨hword, List.append_nil _, rfl⟩
    · have hmiddle : middle = [] :=
        eq_nil_of_blank_first (fun c hc ↦ hsolid c (List.mem_append_right _ hc)) hafter
      rw [hmiddle, List.append_nil]
      exact ⟨hword, rfl, rfl⟩
  · rintro ⟨hword, rfl, rfl⟩
    exact ⟨rfl, hword, by simp, hback⟩

/-- A text without blanks is a run by itself. -/
theorem isRun_solid_iff (hsolid : ∀ c ∈ front, isBlank c = false) :
    IsRun front before word after ↔ IsWord front ∧ before = [] ∧ word = front ∧ after = [] := by
  have hstart {word after : List Char} :
      IsRun front [] word after ↔ IsWord front ∧ word = front ∧ after = [] := by
    have hiff : IsRun (front ++ []) [] word after ↔ IsWord front ∧ word = front ∧ after = [] :=
      isRun_nil_iff hsolid (by simp)
    rwa [List.append_nil] at hiff
  constructor
  · intro hrun
    have hbefore : before = [] := by
      apply eq_nil_of_blank_last _ hrun.blank_before
      intro c hc
      apply hsolid
      rw [hrun.text_eq]
      exact List.mem_append_left _ hc
    obtain rfl := hbefore
    obtain ⟨hfront, hword, hafter⟩ := hstart.mp hrun
    exact ⟨hfront, rfl, hword, hafter⟩
  · rintro ⟨hfront, rfl, hword, hafter⟩
    exact hstart.mpr ⟨hfront, hword, hafter⟩

/-- Behind the first blank of a text the runs are those of what follows. -/
theorem isRun_cut_iff (hsolid : ∀ c ∈ front, isBlank c = false) (hc : isBlank c = true) :
    IsRun (front ++ c :: back) before word after ↔
      (IsWord front ∧ before = [] ∧ word = front ∧ after = c :: back) ∨
        ∃ later, before = front ++ c :: later ∧ IsRun back later word after := by
  have hstart {word after : List Char} := @isRun_nil_iff front (c :: back) word after hsolid
    (by simpa using hc)
  have hlater (later : List Char) : (∀ d ∈ (front ++ c :: later).getLast?, isBlank d = true) ↔
      ∀ d ∈ later.getLast?, isBlank d = true := by
    rw [List.getLast?_append, List.getLast?_cons]
    cases later.getLast? <;> simp [hc]
  constructor
  · intro hrun
    by_cases hbefore : before = []
    · obtain rfl := hbefore
      obtain ⟨hfront, hword, hafter⟩ := hstart.mp hrun
      exact .inl ⟨hfront, rfl, hword, hafter⟩
    · obtain ⟨htext, hword, hlast, hafter⟩ := hrun
      have hlonger : ¬ before <+: front := fun hle ↦ hbefore
        (eq_nil_of_blank_last (fun d hd ↦ hsolid d (hle.subset hd)) hlast)
      rcases List.append_eq_append_iff.mp htext with ⟨middle, rfl, hmiddle⟩ | ⟨middle, rfl, -⟩
      · cases middle with
        | nil =>
          rw [List.append_nil] at hlonger
          exact absurd List.prefix_rfl hlonger
        | cons d later =>
          obtain ⟨rfl, rfl⟩ := List.cons.inj hmiddle
          exact .inr ⟨later, rfl, rfl, hword, (hlater later).mp hlast, hafter⟩
      · exact absurd (List.prefix_append _ _) hlonger
  · rintro (⟨hfront, rfl, hword, hafter⟩ | ⟨later, rfl, rfl, hword, hlast, hafter⟩)
    · exact hstart.mpr ⟨hfront, hword, hafter⟩
    · exact ⟨by simp, hword, (hlater later).mpr hlast, hafter⟩

/-! ## The words -/

/-- The run of a text without blanks, if it has one. -/
def solidRuns (front : List Char) : List (List Char × List Char) := (words front).map ([], ·)

theorem map_snd_solidRuns (front : List Char) : (solidRuns front).map Prod.snd = words front := by
  rw [solidRuns, List.map_map]
  exact List.map_id _

theorem mem_solidRuns_iff (hsolid : ∀ c ∈ front, isBlank c = false) :
    (before, word) ∈ solidRuns front ↔ IsWord front ∧ before = [] ∧ word = front := by
  rw [solidRuns, List.mem_map]
  constructor
  · rintro ⟨run, hrun, heq⟩
    obtain ⟨rfl, rfl⟩ := Prod.mk.inj heq
    obtain ⟨hword, hrun⟩ := eq_of_mem_words_solid hsolid hrun
    exact ⟨hword, rfl, hrun⟩
  · rintro ⟨hword, rfl, rfl⟩
    exact ⟨word, by rw [words_of_isWord hword, List.mem_singleton], rfl⟩

theorem pairwise_solidRuns (hsolid : ∀ c ∈ front, isBlank c = false) :
    (solidRuns front).Pairwise StartsFirst := by
  cases front with
  | nil => exact .nil
  | cons c front =>
    rw [solidRuns, words_of_isWord ⟨List.cons_ne_nil _ _, hsolid⟩]
    exact List.pairwise_singleton _ _

theorem hasWords_words (text : List Char) : HasWords text (words text) := by
  induction text using induction_on_blanks with
  | solid front hfront =>
    refine ⟨solidRuns front, map_snd_solidRuns front, pairwise_solidRuns hfront, ?_⟩
    intro before word
    simp only [mem_solidRuns_iff hfront, isRun_solid_iff hfront, exists_and_left, exists_eq,
      and_true]
  | cut front c back hfront hc ih =>
    obtain ⟨runs, hwords, horder, hruns⟩ := ih
    let behind := runs.map (Prod.map (front ++ c :: ·) id)
    refine ⟨solidRuns front ++ behind, ?_, ?_, ?_⟩
    · rw [List.map_append, map_snd_solidRuns, List.map_map, words_append_cons hc, ← hwords]
      rfl
    · refine List.pairwise_append.mpr ⟨pairwise_solidRuns hfront, ?_, ?_⟩
      · refine List.pairwise_map.mpr (horder.imp fun hab ↦ ?_)
        simpa [StartsFirst] using hab
      · simp only [solidRuns, behind, List.forall_mem_map]
        intro _ _ _ _
        simp only [StartsFirst, Prod.map_fst, List.length_nil, List.length_append, List.length_cons]
        omega
    · intro before word
      have hbehind : (before, word) ∈ behind ↔
          ∃ after later, before = front ++ c :: later ∧ IsRun back later word after := by
        simp only [behind, List.mem_map, Prod.exists, Prod.map_apply, id_eq, Prod.mk.injEq, hruns]
        constructor
        · rintro ⟨later, _, ⟨after, hrun⟩, rfl, rfl⟩
          exact ⟨after, later, rfl, hrun⟩
        · rintro ⟨after, later, rfl, hrun⟩
          exact ⟨later, word, ⟨after, hrun⟩, rfl, rfl⟩
      simp only [List.mem_append, mem_solidRuns_iff hfront, hbehind, isRun_cut_iff hfront hc,
        exists_or, exists_and_left, exists_eq, and_true]

/-- The words of a text are its longest stretches without a blank, from the left to the right. -/
theorem hasWords_iff : HasWords text found ↔ words text = found := by
  constructor
  · rintro ⟨runs, rfl, horder, hruns⟩
    obtain ⟨others, hothers, hothersOrder, hothersRuns⟩ := hasWords_words text
    have hsame : others = runs := hothersOrder.eq_of_mem_iff horder fun run ↦ by
      rw [hothersRuns, hruns]
    rw [← hothers, hsame]
  · rintro rfl
    exact hasWords_words text

end SpecWording.Text
