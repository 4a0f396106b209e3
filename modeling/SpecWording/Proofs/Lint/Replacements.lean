import SpecWording.Proofs.Lint.Fixing
import SpecWording.Proofs.Text.Reordering
import SpecWording.Proofs.Text.Stepwise

/-!
# Replacements that are made together

What the replacements of all rules come to when they are made in one file: which of them are made
(`applyReplacements_selects`), what the text is then (`applyReplacements_one_by_one`), and that the
order in which the rules produced them does not show (`applyReplacements_of_perm`).
-/

namespace SpecWording

open Text (Edited Judgement)
open Text.Edit (Precedes applyTo? isInsertionAt)

variable {source : String} {replacements first second : List Replacement}

/-! ## The selection -/

/-- Flags that select replacements from the left to the right as long as they fit: the selected ones
are stretches of the text that do not overlap, and every other one is no stretch of the text or
starts inside a selected one that comes before it. -/
structure Selects (source : String) (replacements : List Replacement) (flags : List Bool) :
    Prop where
  length_eq : flags.length = replacements.length
  valid : ∀ (i : Nat) (a : Replacement), replacements[i]? = some a → flags[i]? = some true →
    ∃ span, a.location.span? source = some span
  apart : ∀ (i j : Nat) (a b : Replacement), replacements[i]? = some a →
    replacements[j]? = some b → flags[i]? = some true → flags[j]? = some true →
      Precedes (a.edit, i) (b.edit, j) → a.location.stop ≤ b.location.offset
  left_out_iff : ∀ (j : Nat) (b : Replacement), replacements[j]? = some b →
    (flags[j]? = some false ↔ b.location.span? source = none ∨
      ∃ (i : Nat) (a : Replacement), replacements[i]? = some a ∧ flags[i]? = some true ∧
        Precedes (a.edit, i) (b.edit, j) ∧ a.location.offset ≤ b.location.offset ∧
        b.location.offset < a.location.stop)

section Judgements

variable {i : Nat} {replacement : Replacement}

theorem exists_judgement_of_getElem? (source : String)
    (h : replacements[i]? = some replacement) :
    ∃ verdict, ⟨replacement.edit, i, verdict⟩ ∈
      (applyReplacements source replacements).judgements := by
  apply Text.exists_judgement
  rw [List.getElem?_map, h, Option.map_some]

theorem exists_replacement_of_mem {judgement : Judgement}
    (h : judgement ∈ (applyReplacements source replacements).judgements) :
    ∃ replacement, replacements[judgement.index]? = some replacement ∧
      replacement.edit = judgement.edit := by
  have hedit := Text.getElem?_of_mem_judgements h
  rwa [List.getElem?_map, Option.map_eq_some_iff] at hedit

end Judgements

theorem selects_flags (source : String) (replacements : List Replacement) :
    Selects source replacements (applyReplacements source replacements).flags where
  length_eq := length_flags_applyReplacements source replacements
  valid i a ha happlied := by
    obtain ⟨verdict, hmem⟩ := exists_judgement_of_getElem? source ha
    rw [applyReplacements, Text.getElem?_flags_of_mem hmem, Option.some.injEq] at happlied
    exact (Text.judged_applyEdits source _).exists_span _ hmem happlied
  apart i j a b ha hb happliedA happliedB hprecedes := by
    obtain ⟨_, hmemA⟩ := exists_judgement_of_getElem? source ha
    obtain ⟨_, hmemB⟩ := exists_judgement_of_getElem? source hb
    rw [applyReplacements, Text.getElem?_flags_of_mem hmemA, Option.some.injEq] at happliedA
    rw [applyReplacements, Text.getElem?_flags_of_mem hmemB, Option.some.injEq] at happliedB
    exact Text.stop_le_offset_of_precedes hmemA hmemB happliedA happliedB hprecedes
  left_out_iff j b hb := by
    obtain ⟨_, hmem⟩ := exists_judgement_of_getElem? source hb
    rw [applyReplacements, Text.getElem?_flags_of_mem hmem, Option.some.injEq,
      Text.isApplied_eq_false_iff hmem]
    refine or_congr_right ⟨?_, ?_⟩
    · rintro ⟨earlier, hearlier, happlied, hprecedes, hstop⟩
      obtain ⟨a, ha, hedit⟩ := exists_replacement_of_mem hearlier
      have hflag := Text.getElem?_flags_of_mem hearlier
      rw [happlied] at hflag
      rw [Judgement.entry, ← hedit] at hprecedes
      rw [← hedit] at hstop
      exact ⟨earlier.index, a, ha, hflag, hprecedes, hprecedes.offset_le, hstop⟩
    · rintro ⟨i, a, ha, happlied, hprecedes, -, hstop⟩
      obtain ⟨_, hearlier⟩ := exists_judgement_of_getElem? source ha
      rw [Text.getElem?_flags_of_mem hearlier, Option.some.injEq] at happlied
      exact ⟨_, hearlier, happlied, hprecedes, hstop⟩

/-- The replacements that are made are selected from the left to the right, and one that is not made
might as well not be there. -/
theorem applyReplacements_selects (source : String) (replacements : List Replacement) :
    Selects source replacements (applyReplacements source replacements).flags ∧
      ∀ removed, (applyReplacements source replacements).flags[removed]? = some false →
        (applyReplacements source (replacements.eraseIdx removed)).text =
          (applyReplacements source replacements).text ∧
        (applyReplacements source (replacements.eraseIdx removed)).flags =
          (applyReplacements source replacements).flags.eraseIdx removed := by
  refine ⟨selects_flags source replacements, fun removed hleft ↦ ?_⟩
  have hedits : (replacements.eraseIdx removed).map Replacement.edit =
      (replacements.map Replacement.edit).eraseIdx removed := by
    rw [List.eraseIdx_map]
  rw [applyReplacements, hedits]
  exact ⟨Text.text_eraseIdx hleft, Text.flags_eraseIdx hleft⟩

/-- A replacement in the first line of a file. -/
def replacementAt (offset length : Nat) (newText : String) : Replacement :=
  ⟨⟨⟨"a_spec.rb"⟩, 1, offset + 1, offset, length⟩, newText⟩

/-- Replacements of which the first and the fourth overlap the second, and the last one starts
inside a character. -/
def entangled : List Replacement :=
  [replacementAt 2 2 "Y", replacementAt 1 2 "X", replacementAt 1 0 "p", replacementAt 1 2 "Z",
    replacementAt 5 1 "e"]

theorem applyReplacements_selects_entangled :
    (applyReplacements "abcdé" entangled).flags = [false, true, true, false, false] ∧
      Selects "abcdé" entangled [false, true, true, false, false] ∧
      (applyReplacements "abcdé" (entangled.eraseIdx 0)).text = "apXdé" ∧
      (applyReplacements "abcdé" (entangled.eraseIdx 0)).flags = [true, true, false, false] := by
  have horder : Text.Edit.inOrder (entangled.map Replacement.edit) = [(⟨1, 0, "p"⟩, 2),
      (⟨1, 2, "X"⟩, 1), (⟨1, 2, "Z"⟩, 3), (⟨2, 2, "Y"⟩, 0), (⟨5, 1, "e"⟩, 4)] :=
    Text.Edit.inOrder_eq (by decide) (by decide)
  have hedited : (applyReplacements "abcdé" entangled).text = "apXdé" ∧
      (applyReplacements "abcdé" entangled).flags = [false, true, true, false, false] := by
    rw [applyReplacements, Text.applyEdits, horder]
    decide
  obtain ⟨htext, hflags⟩ := hedited
  obtain ⟨hselects, hremoved⟩ := applyReplacements_selects "abcdé" entangled
  obtain ⟨hrestText, hrestFlags⟩ := hremoved 0 (by rw [hflags]; rfl)
  rw [htext] at hrestText
  rw [hflags] at hselects hrestFlags
  exact ⟨hflags, hselects, hrestText, hrestFlags⟩

/-! ## One replacement after another -/

/-- The replacements that are made, as edits with their indices. -/
def madeEdits (source : String) (replacements : List Replacement) : List (Text.Edit × Nat) :=
  (replacements.map Replacement.edit).zipIdx.filter fun entry ↦
    (applyReplacements source replacements).flags[entry.2]? = some true

/-- The text is what comes out if the replacements that are made are made one at a time, from the
last one to the first, each at its own offset. So its length is known, and insertions at one place
stand there in the order of the list. -/
theorem applyReplacements_one_by_one (source : String) (replacements : List Replacement) :
    let made := madeEdits source replacements
    let text := (applyReplacements source replacements).text
    ∃ order : List (Text.Edit × Nat), order.Perm made ∧ order.Pairwise Precedes ∧
      (order.map Prod.fst).foldrM applyTo? source = some text ∧
      (text.utf8ByteSize : Int) = source.utf8ByteSize +
        (made.map fun entry ↦ (entry.1.newText.utf8ByteSize : Int) - entry.1.length).sum ∧
      ∀ offset, made.filter (isInsertionAt offset ·.1) ≠ [] →
        ∃ before after front back, source = before ++ after ∧ before.utf8ByteSize = offset ∧
          ((order.map Prod.fst).filter (·.offset < offset)).foldrM applyTo? before = some front ∧
          text = front ++
            String.join ((made.filter (isInsertionAt offset ·.1)).map (·.1.newText)) ++ back := by
  intro made text
  let edits := replacements.map Replacement.edit
  let order := Text.appliedEntries (Text.applyEdits source edits).judgements
  have hperm : order.Perm made := Text.appliedEntries_perm source edits
  have hedits : order.map Prod.fst = Text.appliedEdits (Text.applyEdits source edits).judgements :=
    Text.map_fst_appliedEntries _
  have htext : (order.map Prod.fst).foldrM applyTo? source = some text := by
    rw [hedits]
    exact Text.foldrM_appliedEdits source edits
  refine ⟨order, hperm, Text.pairwise_precedes_appliedEntries source edits, htext, ?_, ?_⟩
  · rw [Text.Edit.utf8ByteSize_foldrM htext, List.map_map]
    exact congrArg _ (hperm.map _).sum_eq
  · intro offset hsome
    have hmade : order.filter (isInsertionAt offset ·.1) = made.filter (isInsertionAt offset ·.1) :=
      Text.filter_isInsertionAt offset
    have hinsertions : (order.map Prod.fst).filter (isInsertionAt offset) =
        (made.filter (isInsertionAt offset ·.1)).map Prod.fst := by
      rw [← hmade, List.filter_map]
      rfl
    have hplace : (order.map Prod.fst).filter (isInsertionAt offset) ≠ [] := by
      rw [hinsertions]
      exact fun hnil ↦ hsome (List.map_eq_nil_iff.mp hnil)
    rw [hedits] at hplace
    have hall := Text.exists_insertions_applyEdits hplace
    rw [← hedits, hinsertions, List.map_map] at hall
    exact hall

/-- Two insertions and a replacement that start at the same place. -/
def meeting : List Replacement :=
  [replacementAt 1 1 "X", replacementAt 1 0 "p", replacementAt 1 0 "q"]

theorem applyReplacements_one_by_one_meeting :
    (applyReplacements "abc" meeting).text = "apqXc" ∧
      madeEdits "abc" meeting = [(⟨1, 1, "X"⟩, 0), (⟨1, 0, "p"⟩, 1), (⟨1, 0, "q"⟩, 2)] ∧
      (∃ order : List (Text.Edit × Nat), order.Perm (madeEdits "abc" meeting) ∧
        order.Pairwise Precedes ∧ (order.map Prod.fst).foldrM applyTo? "abc" = some "apqXc") ∧
      ∃ before after front back, "abc" = before ++ after ∧ before.utf8ByteSize = 1 ∧
        "apqXc" = front ++ "pq" ++ back := by
  have hentries : Text.Edit.inOrder (meeting.map Replacement.edit) =
      [(⟨1, 0, "p"⟩, 1), (⟨1, 0, "q"⟩, 2), (⟨1, 1, "X"⟩, 0)] :=
    Text.Edit.inOrder_eq (by decide) (by decide)
  have hedited : (applyReplacements "abc" meeting).text = "apqXc" ∧
      madeEdits "abc" meeting = [(⟨1, 1, "X"⟩, 0), (⟨1, 0, "p"⟩, 1), (⟨1, 0, "q"⟩, 2)] := by
    rw [madeEdits, applyReplacements, Text.applyEdits, hentries]
    decide
  obtain ⟨htext, hmade⟩ := hedited
  obtain ⟨order, hperm, horder, hsteps, -, hplaces⟩ := applyReplacements_one_by_one "abc" meeting
  rw [htext] at hsteps hplaces
  have hsome : (madeEdits "abc" meeting).filter (isInsertionAt 1 ·.1) ≠ [] := by
    rw [hmade]
    decide
  obtain ⟨before, after, front, back, hsource, hsize, -, hplace⟩ := hplaces 1 hsome
  rw [hmade] at hplace
  exact ⟨htext, hmade, ⟨order, hperm, horder, hsteps⟩, before, after, front, back, hsource, hsize,
    hplace⟩

/-! ## In another order -/

/-- If replacements of one stretch have the same text, it does not matter to the file in which order
all of them are listed. If every replacement has its own stretch, it does not matter to any of them
either. -/
theorem applyReplacements_of_perm (source : String) (hperm : first.Perm second)
    (hties : ∀ a ∈ first, ∀ b ∈ first, a.location.offset = b.location.offset →
      a.location.length = b.location.length → a.newText = b.newText) :
    (applyReplacements source first).text = (applyReplacements source second).text ∧
      (applyReplacements source first).appliedCount =
        (applyReplacements source second).appliedCount ∧
      ((first.map fun replacement ↦
          (replacement.location.offset, replacement.location.length)).Nodup →
        ∀ (i j : Nat) (replacement : Replacement), first[i]? = some replacement →
          second[j]? = some replacement → (applyReplacements source first).flags[i]? =
            (applyReplacements source second).flags[j]?) := by
  have hedits := hperm.map Replacement.edit
  have hsame : ∀ a ∈ first.map Replacement.edit, ∀ b ∈ first.map Replacement.edit,
      a.offset = b.offset → a.length = b.length → a = b := by
    simp only [List.forall_mem_map]
    intro a ha b hb hoffset hlength
    rw [Replacement.edit, Replacement.edit, Text.Edit.mk.injEq]
    exact ⟨hoffset, hlength, hties a ha b hb hoffset hlength⟩
  refine ⟨Text.text_applyEdits_of_perm hedits hsame source,
    Text.appliedCount_of_perm hedits hsame source, ?_⟩
  intro hdistinct i j replacement hfirst hsecond
  have hstretches : ((first.map Replacement.edit).map fun edit ↦
      (edit.offset, edit.length)).Nodup := by
    rwa [List.map_map]
  have hplaces : (first.map Replacement.edit)[i]? = some replacement.edit ∧
      (second.map Replacement.edit)[j]? = some replacement.edit := by
    rw [List.getElem?_map, List.getElem?_map, hfirst, hsecond]
    exact ⟨rfl, rfl⟩
  exact Text.getElem?_flags_of_perm hedits hstretches hplaces.1 hplaces.2

/-- Two equal insertions and a replacement behind them. -/
def tied : List Replacement := [replacementAt 1 0 "p", replacementAt 2 1 "X", replacementAt 1 0 "p"]

/-- Three replacements of which the second one overlaps the first. -/
def distinct : List Replacement :=
  [replacementAt 1 2 "X", replacementAt 2 2 "Y", replacementAt 0 1 "Z"]

theorem applyReplacements_of_perm_reverse :
    (applyReplacements "abcd" tied.reverse).text = "appbXd" ∧
      (applyReplacements "abcd" tied.reverse).appliedCount = 3 ∧
      (applyReplacements "abcd" distinct.reverse).flags[0]? = some true ∧
      (applyReplacements "abcd" distinct.reverse).flags[1]? = some false := by
  have htiedOrder : Text.Edit.inOrder (tied.map Replacement.edit) =
      [(⟨1, 0, "p"⟩, 0), (⟨1, 0, "p"⟩, 2), (⟨2, 1, "X"⟩, 1)] :=
    Text.Edit.inOrder_eq (by decide) (by decide)
  have hdistinctOrder : Text.Edit.inOrder (distinct.map Replacement.edit) =
      [(⟨0, 1, "Z"⟩, 2), (⟨1, 2, "X"⟩, 0), (⟨2, 2, "Y"⟩, 1)] :=
    Text.Edit.inOrder_eq (by decide) (by decide)
  have htied : (applyReplacements "abcd" tied).text = "appbXd" ∧
      (applyReplacements "abcd" tied).appliedCount = 3 := by
    rw [applyReplacements, Text.applyEdits, htiedOrder]
    decide
  have hdistinct : (applyReplacements "abcd" distinct).flags = [true, false, true] := by
    rw [applyReplacements, Text.applyEdits, hdistinctOrder]
    decide
  obtain ⟨htext, hcount, -⟩ :=
    applyReplacements_of_perm "abcd" tied.reverse_perm.symm (by decide)
  obtain ⟨-, -, hflags⟩ :=
    applyReplacements_of_perm "abcd" distinct.reverse_perm.symm (by decide)
  have hown := hflags (by decide)
  have hlast := hown 2 0 (replacementAt 0 1 "Z") rfl rfl
  have hmiddle := hown 1 1 (replacementAt 2 2 "Y") rfl rfl
  rw [hdistinct] at hlast hmiddle
  exact ⟨htext.symm.trans htied.1, hcount.symm.trans htied.2, hlast.symm, hmiddle.symm⟩

end SpecWording
