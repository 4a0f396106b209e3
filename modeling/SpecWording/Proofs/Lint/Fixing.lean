import Mathlib.Data.List.Basic
import SpecWording.Lint.Check
import SpecWording.Proofs.Text.Selection

/-!
# Fixing a file

What fixing does when nothing stands in its way: every finding has a replacement and every one of
these is applied. Then every violation counts as fixed, nothing is logged, and the corrected text
revises the checked one in the stretches of the replacements. The findings come from a list of
items, each of which gives both the finding and its replacement.
-/

namespace SpecWording

open Text (Edited Patchwork)

variable {Item : Type} {file : SourceFile} {items : List Item} {finding : Item → Finding}
  {replacement : Item → Replacement}

/-- The violation of a finding with its replacement suggested and made. -/
def Finding.corrected (finding : Finding) (replacement : Replacement) : Violation :=
  { finding.violation with suggestion := some replacement.suggestion, fixed := true }

theorem Finding.mark_replicate
    (h : ∀ item ∈ items, (finding item).replacement? file = some (replacement item)) :
    Finding.mark file (items.map finding) (List.replicate items.length true) =
      items.map fun item ↦ (finding item).corrected (replacement item) := by
  induction items with
  | nil => rfl
  | cons item others ih =>
    have hfirst := h item List.mem_cons_self
    have hothers := ih fun other hother ↦ h other (List.mem_cons_of_mem _ hother)
    rw [List.map_cons, Finding.mark, hfirst, List.map_cons, ← hothers]
    rfl

theorem skippedLog_eq_nil {replacements : List Replacement} {edited : Edited}
    (h : ∀ judgement ∈ edited.judgements, judgement.verdict = .applied) :
    skippedLog replacements edited = [] := by
  rw [skippedLog, List.filterMap_eq_nil_iff]
  intro judgement hmem
  rw [h judgement hmem]
  cases replacements[judgement.index]? <;> rfl

theorem length_flags_applyReplacements (source : String) (replacements : List Replacement) :
    (applyReplacements source replacements).flags.length = replacements.length := by
  rw [applyReplacements, Text.length_flags, List.length_map]

theorem replacements_eq_map
    (h : ∀ item ∈ items, (finding item).replacement? file = some (replacement item)) :
    (items.map finding).filterMap (·.replacement? file) = items.map replacement := by
  rw [List.filterMap_map, ← List.filterMap_eq_map]
  exact List.filterMap_congr h

/-! ## Replacements that are apart -/

section Apart

variable (h : ∀ item ∈ items, (finding item).replacement? file = some (replacement item))
  (hvalid : ∀ item ∈ items, ∃ span, (replacement item).edit.span? file.content = some span)
  (hapart : items.Pairwise fun a b ↦ (replacement a).edit.Apart (replacement b).edit)

include hvalid hapart in
theorem verdict_of_apart_replacements {judgement : Text.Judgement}
    (hmem : judgement ∈ (applyReplacements file.content (items.map replacement)).judgements) :
    judgement.verdict = .applied := by
  rw [applyReplacements, List.map_map] at hmem
  apply Text.verdict_of_apart _ (List.pairwise_map.mpr hapart) hmem
  intro edit hedit
  obtain ⟨item, hitem, rfl⟩ := List.mem_map.mp hedit
  exact hvalid item hitem

include h hvalid hapart

/-- All replacements are made. -/
theorem violations_fixAll : (fixAll file (items.map finding)).violations =
    items.map fun item ↦ (finding item).corrected (replacement item) := by
  have hflags : (applyReplacements file.content (items.map replacement)).flags =
      List.replicate items.length true := by
    have hreplicate := Text.flags_eq_replicate fun judgement hmem ↦
      verdict_of_apart_replacements hvalid hapart hmem
    rwa [List.length_map, List.length_map] at hreplicate
  simp only [fixAll, replacements_eq_map h, hflags]
  exact Finding.mark_replicate h

theorem log_fixAll : (fixAll file (items.map finding)).log = [] := by
  simp only [fixAll, replacements_eq_map h]
  exact skippedLog_eq_nil fun judgement ↦ verdict_of_apart_replacements hvalid hapart

/-- The corrected text differs from the checked one in the stretches of the replacements only. -/
theorem exists_patchwork_fixAll :
    ∃ patchwork : Patchwork, patchwork.original = file.content.toList ∧
      patchwork.revised =
        ((fixAll file (items.map finding)).corrected.getD file.content).toList ∧
      patchwork.stretches.Perm (items.filterMap fun item ↦
        ((replacement item).edit.span? file.content).map
          (·, (replacement item).newText.toList)) := by
  obtain ⟨patchwork, horiginal, hrevised, hstretches⟩ :=
    Text.exists_patchwork_applyEdits file.content ((items.map replacement).map Replacement.edit)
  refine ⟨patchwork, horiginal, ?_, ?_⟩
  · simp only [fixAll, replacements_eq_map h]
    rw [hrevised, ← applyReplacements]
    split
    · next heq => rw [heq, Option.getD_none]
    · rfl
  · have hperm := (Text.replaced_perm fun judgement hmem ↦
      verdict_of_apart_replacements hvalid hapart hmem).map fun stretch ↦
        (stretch.1, stretch.2.toList)
    rw [hstretches]
    simpa [List.map_filterMap, List.filterMap_map, Function.comp_def, Replacement.edit] using hperm

end Apart

end SpecWording
