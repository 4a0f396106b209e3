import Mathlib.Data.List.Sort
import Mathlib.Data.Prod.Lex
import SpecWording.Proofs.Text.Edit

/-!
# Which edits are applied

Edits come in the order of their offsets, then of their lengths, then of their places in the list.
An edit is left out for one of two reasons: it names no stretch of the text, or an applied edit that
comes before it ends behind its start. So the applied edits follow each other without overlaps, none
of the others fits between them, and an edit that is left out might as well not be listed.
-/

namespace SpecWording.Text

namespace Judgement

/-- The same verdict on an edit that has another index. -/
def renumber (judgement : Judgement) (number : Nat → Nat) : Judgement :=
  { judgement with index := number judgement.index }

end Judgement

namespace Edit

/-- Whether the first of two edits with their indices comes before the second one: by its offset,
then its length, then its index. -/
def Precedes (a b : Edit × Nat) : Prop :=
  toLex (a.1.offset, toLex (a.1.length, a.2)) < toLex (b.1.offset, toLex (b.1.length, b.2))

theorem precedes_iff {a b : Edit × Nat} : Precedes a b ↔
    a.1.offset < b.1.offset ∨ a.1.offset = b.1.offset ∧
      (a.1.length < b.1.length ∨ a.1.length = b.1.length ∧ a.2 < b.2) := by
  simp only [Precedes, Prod.Lex.toLex_lt_toLex]

instance (a b : Edit × Nat) : Decidable (Precedes a b) := decidable_of_iff _ precedes_iff.symm

instance : Std.Irrefl Precedes := ⟨fun _ ↦ lt_irrefl _⟩

instance : Std.Antisymm Precedes := ⟨fun _ _ hab hba ↦ (lt_asymm hab hba).elim⟩

theorem Precedes.offset_le {a b : Edit × Nat} (h : Precedes a b) : a.1.offset ≤ b.1.offset := by
  rw [precedes_iff] at h
  omega

theorem Precedes.stretch_le {a b : Edit × Nat} (h : Precedes a b) : a.1.offset < b.1.offset ∨
    a.1.offset = b.1.offset ∧ a.1.length ≤ b.1.length := by
  rw [precedes_iff] at h
  omega

theorem precedes_of_comesFirst {a b : Edit × Nat} (h : comesFirst a b = true) (hne : a.2 ≠ b.2) :
    Precedes a b := by
  unfold comesFirst at h
  simp only [Bool.or_eq_true, Bool.and_eq_true, decide_eq_true_eq, beq_iff_eq] at h
  rw [precedes_iff]
  omega

theorem pairwise_zipIdx (edits : List Edit) : edits.zipIdx.Pairwise fun a b ↦ a.2 < b.2 := by
  rw [← List.pairwise_map, List.zipIdx_map_snd]
  exact List.pairwise_lt_range'

theorem pairwise_precedes_inOrder (edits : List Edit) : (inOrder edits).Pairwise Precedes := by
  have hindex : (inOrder edits).Pairwise fun a b ↦ a.2 ≠ b.2 :=
    ((inOrder_perm edits).pairwise_iff Ne.symm).mpr ((pairwise_zipIdx edits).imp Nat.ne_of_lt)
  exact (pairwise_inOrder edits).imp₂ (fun a b ↦ precedes_of_comesFirst) hindex

/-- Only one list has the given edits in order. -/
theorem eq_of_pairwise_precedes {first second : List (Edit × Nat)} (hperm : first.Perm second)
    (hfirst : first.Pairwise Precedes) (hsecond : second.Pairwise Precedes) : first = second :=
  hfirst.eq_of_mem_iff hsecond fun _ ↦ hperm.mem_iff

theorem inOrder_eq {edits : List Edit} {entries : List (Edit × Nat)}
    (hperm : edits.zipIdx.Perm entries) (horder : entries.Pairwise Precedes) :
    inOrder edits = entries :=
  eq_of_pairwise_precedes ((inOrder_perm edits).trans hperm) (pairwise_precedes_inOrder edits)
    horder

/-! ## Judging behind a cursor -/

/-- How edits are judged one after another when all bytes before a cursor are settled: an applied
edit moves the cursor to its end. -/
inductive Judged (source : String) : Nat → List (Edit × Nat) → List Judgement → Prop
  | nil (cursor : Nat) : Judged source cursor [] []
  | outside {cursor index : Nat} {edit : Edit} {others : List (Edit × Nat)}
      {judgements : List Judgement} (hspan : edit.span? source = none)
      (hothers : Judged source cursor others judgements) :
      Judged source cursor ((edit, index) :: others) (⟨edit, index, .outside⟩ :: judgements)
  | overlapping {cursor index : Nat} {edit : Edit} {others : List (Edit × Nat)}
      {judgements : List Judgement} (hspan : ∃ span, edit.span? source = some span)
      (hcursor : edit.offset < cursor) (hothers : Judged source cursor others judgements) :
      Judged source cursor ((edit, index) :: others) (⟨edit, index, .overlapping⟩ :: judgements)
  | applied {cursor index : Nat} {edit : Edit} {others : List (Edit × Nat)}
      {judgements : List Judgement} (hspan : ∃ span, edit.span? source = some span)
      (hcursor : cursor ≤ edit.offset) (hothers : Judged source edit.stop others judgements) :
      Judged source cursor ((edit, index) :: others) (⟨edit, index, .applied⟩ :: judgements)

variable {source : String} {cursor : Nat} {entries : List (Edit × Nat)}
  {judgements : List Judgement}

/-- The cursor is where the settled characters end. -/
theorem judged_judgeAll {front : List Char} (hfront : front <+: source.toList)
    (entries : List (Edit × Nat)) :
    Judged source (byteLength front) entries (judgeAll source front.length entries) := by
  induction entries generalizing front with
  | nil => exact .nil _
  | cons entry others ih =>
    obtain ⟨edit, index⟩ := entry
    rw [judgeAll]
    cases hspan : edit.span? source with
    | none =>
      rw [judge_eq_outside _ hspan, settled_of_ne _ (by decide)]
      exact .outside hspan (ih hfront)
    | some span =>
      obtain ⟨hsource, hstart, hstop⟩ := span?_eq_some_iff.mp hspan
      rw [judge_eq_ite hfront hspan, hstart]
      split
      · next hcursor =>
        rw [settled_of_ne _ (by decide)]
        exact .overlapping ⟨span, hspan⟩ hcursor (ih hfront)
      · next hcursor =>
        have hnext : span.before ++ span.content <+: source.toList := by
          rw [← hsource]
          exact List.prefix_append _ _
        have hothers := ih hnext
        rw [byteLength_append, List.length_append] at hothers
        rw [settled_applied _ hspan]
        exact .applied ⟨span, hspan⟩ (Nat.not_lt.mp hcursor) (hstop ▸ hothers)

namespace Judged

theorem exists_span (h : Judged source cursor entries judgements) :
    ∀ judgement ∈ judgements, judgement.isApplied = true →
      ∃ span, judgement.edit.span? source = some span := by
  induction h with
  | nil => exact List.forall_mem_nil _
  | outside _ _ ih => exact List.forall_mem_cons.mpr ⟨by simp [Judgement.isApplied], ih⟩
  | overlapping hspan _ _ ih => exact List.forall_mem_cons.mpr ⟨fun _ ↦ hspan, ih⟩
  | applied hspan _ _ ih => exact List.forall_mem_cons.mpr ⟨fun _ ↦ hspan, ih⟩

/-- Nothing is applied before the cursor. -/
theorem cursor_le (h : Judged source cursor entries judgements) :
    ∀ judgement ∈ judgements, judgement.isApplied = true → cursor ≤ judgement.edit.offset := by
  induction h with
  | nil => exact List.forall_mem_nil _
  | outside _ _ ih => exact List.forall_mem_cons.mpr ⟨by simp [Judgement.isApplied], ih⟩
  | overlapping _ _ _ ih => exact List.forall_mem_cons.mpr ⟨by simp [Judgement.isApplied], ih⟩
  | @applied cursor _ edit _ _ _ hcursor _ ih =>
    refine List.forall_mem_cons.mpr ⟨fun _ ↦ hcursor, fun judgement hmem happlied ↦ ?_⟩
    calc
      cursor ≤ edit.offset := hcursor
      _ ≤ edit.stop := Nat.le_add_right _ _
      _ ≤ judgement.edit.offset := ih judgement hmem happlied

/-- An applied edit ends before the next applied one starts. -/
theorem pairwise_apart (h : Judged source cursor entries judgements) :
    judgements.Pairwise fun a b ↦
      a.isApplied = true → b.isApplied = true → a.edit.stop ≤ b.edit.offset := by
  induction h with
  | nil => exact .nil
  | outside _ _ ih => exact .cons (by simp [Judgement.isApplied]) ih
  | overlapping _ _ _ ih => exact .cons (by simp [Judgement.isApplied]) ih
  | applied _ _ hothers ih => exact .cons (fun _ hmem _ ↦ hothers.cursor_le _ hmem) ih

/-- What is not applied names no stretch of the text, or starts before the end of what is. -/
theorem span?_eq_none_or (h : Judged source cursor entries judgements) :
    ∀ judgement ∈ judgements, judgement.isApplied = false →
      judgement.edit.span? source = none ∨ judgement.edit.offset < cursor ∨
        ∃ earlier, [earlier, judgement].Sublist judgements ∧ earlier.isApplied = true ∧
          judgement.edit.offset < earlier.edit.stop := by
  have hlater {first judgement : Judgement} {others : List Judgement} : (∃ earlier,
        [earlier, judgement].Sublist others ∧ earlier.isApplied = true ∧
          judgement.edit.offset < earlier.edit.stop) →
      ∃ earlier, [earlier, judgement].Sublist (first :: others) ∧ earlier.isApplied = true ∧
        judgement.edit.offset < earlier.edit.stop := by
    rintro ⟨earlier, hsublist, hearlier⟩
    exact ⟨earlier, hsublist.cons first, hearlier⟩
  induction h with
  | nil => exact List.forall_mem_nil _
  | outside hspan _ ih =>
    refine List.forall_mem_cons.mpr ⟨fun _ ↦ .inl hspan, fun judgement hmem hleft ↦ ?_⟩
    exact (ih judgement hmem hleft).imp_right (Or.imp_right hlater)
  | overlapping _ hcursor _ ih =>
    refine List.forall_mem_cons.mpr ⟨fun _ ↦ .inr (.inl hcursor), fun judgement hmem hleft ↦ ?_⟩
    exact (ih judgement hmem hleft).imp_right (Or.imp_right hlater)
  | @applied _ index edit _ others _ _ _ ih =>
    refine List.forall_mem_cons.mpr ⟨by simp [Judgement.isApplied], fun judgement hmem hleft ↦ ?_⟩
    refine (ih judgement hmem hleft).imp_right fun hstop ↦ .inr (hstop.elim (fun hstop ↦ ?_) hlater)
    exact ⟨⟨edit, index, .applied⟩, (List.singleton_sublist.mpr hmem).cons_cons _, rfl, hstop⟩

end Judged

/-- Edits that are left out leave no trace in the judgements on the others. -/
theorem judgeAll_filter (keep : Edit × Nat → Bool) {position : Nat} {entries : List (Edit × Nat)}
    (h : ∀ judgement ∈ judgeAll source position entries,
      judgement.isApplied = true → keep judgement.entry = true) :
    judgeAll source position (entries.filter keep) =
      (judgeAll source position entries).filter (keep ·.entry) := by
  induction entries generalizing position with
  | nil => rfl
  | cons entry others ih =>
    obtain ⟨edit, index⟩ := entry
    rw [judgeAll] at h ⊢
    obtain ⟨hfirst, hothers⟩ := List.forall_mem_cons.mp h
    have hrest := ih hothers
    by_cases hkeep : keep (edit, index) = true
    · have hentry : keep (Judgement.entry ⟨edit, index, judge source position edit⟩) = true := hkeep
      rw [List.filter_cons, List.filter_cons, if_pos hkeep, if_pos hentry, judgeAll, hrest]
    · have hentry : ¬ keep (Judgement.entry ⟨edit, index, judge source position edit⟩) = true :=
        hkeep
      have hleft : judge source position edit ≠ .applied := by
        intro happlied
        exact hkeep (hfirst (by simp [Judgement.isApplied, happlied]))
      rw [List.filter_cons, List.filter_cons, if_neg hkeep, if_neg hentry, ← hrest,
        settled_of_ne position hleft]

/-- The indices play no part in judging. -/
theorem judgeAll_map (number : Nat → Nat) (position : Nat) (entries : List (Edit × Nat)) :
    judgeAll source position (entries.map (Prod.map id number)) =
      (judgeAll source position entries).map (·.renumber number) := by
  induction entries generalizing position with
  | nil => rfl
  | cons entry others ih =>
    obtain ⟨edit, index⟩ := entry
    rw [List.map_cons, Prod.map_apply, id_eq, judgeAll, judgeAll, ih, List.map_cons]
    rfl

end Edit

open Edit

variable {source : String} {edits : List Edit} {edit : Edit} {index : Nat} {judgement : Judgement}

/-! ## The selection -/

theorem judged_applyEdits (source : String) (edits : List Edit) :
    Judged source 0 (inOrder edits) (applyEdits source edits).judgements :=
  judged_judgeAll List.nil_prefix (inOrder edits)

theorem pairwise_precedes_judgements (source : String) (edits : List Edit) :
    (applyEdits source edits).judgements.Pairwise fun a b ↦ Precedes a.entry b.entry := by
  rw [← List.pairwise_map, map_entry_judgements]
  exact pairwise_precedes_inOrder edits

theorem stop_le_offset_of_precedes {a b : Judgement} (ha : a ∈ (applyEdits source edits).judgements)
    (hb : b ∈ (applyEdits source edits).judgements) (haApplied : a.isApplied = true)
    (hbApplied : b.isApplied = true) (h : Precedes a.entry b.entry) :
    a.edit.stop ≤ b.edit.offset := by
  obtain ⟨i, hi, rfl⟩ := List.getElem_of_mem ha
  obtain ⟨j, hj, rfl⟩ := List.getElem_of_mem hb
  have horder := List.pairwise_iff_getElem.mp (pairwise_precedes_judgements source edits)
  rcases Nat.lt_trichotomy i j with hlt | rfl | hlt
  · exact List.pairwise_iff_getElem.mp (judged_applyEdits source edits).pairwise_apart i j hi hj hlt
      haApplied hbApplied
  · exact absurd h (lt_irrefl _)
  · exact absurd h (lt_asymm (horder j i hj hi hlt))

/-- An edit is left out exactly if it names no stretch of the text or an applied edit before it ends
behind its start. -/
theorem isApplied_eq_false_iff (hmem : judgement ∈ (applyEdits source edits).judgements) :
    judgement.isApplied = false ↔ judgement.edit.span? source = none ∨
      ∃ earlier ∈ (applyEdits source edits).judgements, earlier.isApplied = true ∧
        Precedes earlier.entry judgement.entry ∧ judgement.edit.offset < earlier.edit.stop := by
  have hjudged := judged_applyEdits source edits
  constructor
  · intro hleft
    refine (hjudged.span?_eq_none_or judgement hmem hleft).imp_right fun hstop ↦ ?_
    obtain ⟨earlier, hsublist, happlied, hstop⟩ := hstop.resolve_left (Nat.not_lt_zero _)
    have hprecedes : Precedes earlier.entry judgement.entry :=
      List.rel_of_pairwise_cons ((pairwise_precedes_judgements source edits).sublist hsublist)
        List.mem_cons_self
    exact ⟨earlier, hsublist.subset List.mem_cons_self, happlied, hprecedes, hstop⟩
  · intro hreason
    rw [Bool.eq_false_iff]
    intro happlied
    rcases hreason with hnone | ⟨earlier, hearlier, hfirst, hprecedes, hstop⟩
    · obtain ⟨span, hspan⟩ := hjudged.exists_span judgement hmem happlied
      rw [hnone] at hspan
      cases hspan
    · have hle := stop_le_offset_of_precedes hearlier hmem hfirst happlied hprecedes
      exact absurd hstop (Nat.not_lt.mpr hle)

/-! ## Edits that are apart -/

theorem apart_of_getElem? {i j : Nat} {a b : Edit} (hapart : edits.Pairwise Apart)
    (ha : edits[i]? = some a) (hb : edits[j]? = some b) (hne : i ≠ j) : a.Apart b := by
  obtain ⟨hi, rfl⟩ := List.getElem?_eq_some_iff.mp ha
  obtain ⟨hj, rfl⟩ := List.getElem?_eq_some_iff.mp hb
  rcases Nat.lt_or_gt_of_ne hne with hlt | hlt
  · exact List.pairwise_iff_getElem.mp hapart i j hi hj hlt
  · exact (List.pairwise_iff_getElem.mp hapart j i hj hi hlt).symm

/-- Edits of stretches that are apart from each other are all applied. -/
theorem verdict_of_apart (hvalid : ∀ edit ∈ edits, ∃ span, edit.span? source = some span)
    (hapart : edits.Pairwise Apart) {judgement : Judgement}
    (hmem : judgement ∈ (applyEdits source edits).judgements) : judgement.verdict = .applied := by
  by_contra hne
  have hleft : judgement.isApplied = false := by
    rwa [Judgement.isApplied, beq_eq_false_iff_ne]
  have hedit := getElem?_of_mem_judgements hmem
  rcases (isApplied_eq_false_iff hmem).mp hleft with
    hnone | ⟨earlier, hearlier, -, hprecedes, hstop⟩
  · obtain ⟨span, hspan⟩ := hvalid _ (List.mem_of_getElem? hedit)
    rw [hnone] at hspan
    cases hspan
  · have hother := getElem?_of_mem_judgements hearlier
    have hindex : earlier.index ≠ judgement.index := by
      intro hsame
      rw [hsame, hedit, Option.some.injEq] at hother
      rw [Judgement.entry, Judgement.entry, hsame, hother] at hprecedes
      exact lt_irrefl _ hprecedes
    have hboth : earlier.edit.Apart judgement.edit := apart_of_getElem? hapart hother hedit hindex
    have hle := hprecedes.stretch_le
    simp only [Judgement.entry] at hle
    unfold Apart Edit.stop at *
    omega

/-! ## The applied edits alone -/

/-- The applied edits in the order of judging. -/
def appliedEdits (judgements : List Judgement) : List Edit :=
  (judgements.filter (·.isApplied)).map (·.edit)

theorem appliedEdits_renumber (number : Nat → Nat) (judgements : List Judgement) :
    appliedEdits (judgements.map (·.renumber number)) = appliedEdits judgements := by
  rw [appliedEdits, List.filter_map, List.map_map]
  rfl

/-- The stretches of some edits in a text, with the new texts. -/
def stretchesOf (source : String) (edits : List Edit) : List (Span × String) :=
  edits.filterMap fun edit ↦ (edit.span? source).map (·, edit.newText)

theorem replaced_eq_stretchesOf (judgements : List Judgement) :
    replaced source judgements = stretchesOf source (appliedEdits judgements) := by
  rw [stretchesOf, appliedEdits, List.filterMap_map]
  rfl

/-- The new text depends on the applied edits only. -/
theorem text_applyEdits_congr {others : List Edit}
    (h : appliedEdits (applyEdits source others).judgements =
      appliedEdits (applyEdits source edits).judgements) :
    (applyEdits source others).text = (applyEdits source edits).text := by
  calc
    _ = String.ofList (splice source.toList 0
        (replaced source (applyEdits source others).judgements)) := rfl
    _ = String.ofList (splice source.toList 0
        (replaced source (applyEdits source edits).judgements)) := by
      rw [replaced_eq_stretchesOf, h, replaced_eq_stretchesOf]
    _ = _ := rfl

/-! ## Edits that are left out -/

/-- The index in a list of what has another index once a place of the list is removed. -/
def skip (removed index : Nat) : Nat := if index < removed then index else index + 1

theorem skip_lt_skip {removed i j : Nat} (h : i < j) : skip removed i < skip removed j := by
  unfold skip
  split <;> split <;> omega

theorem exists_skip_iff {removed index : Nat} :
    (∃ k, skip removed k = index) ↔ index ≠ removed := by
  constructor
  · rintro ⟨k, rfl⟩
    unfold skip
    split <;> omega
  · intro hne
    by_cases hlt : index < removed
    · exact ⟨index, if_pos hlt⟩
    · refine ⟨index - 1, ?_⟩
      rw [skip, if_neg (by omega)]
      omega

theorem getElem?_eraseIdx_skip {α : Type} (items : List α) (removed index : Nat) :
    (items.eraseIdx removed)[index]? = items[skip removed index]? := by
  rw [List.getElem?_eraseIdx, skip]
  split <;> rfl

theorem inOrder_eraseIdx (edits : List Edit) (removed : Nat) :
    (inOrder (edits.eraseIdx removed)).map (Prod.map id (skip removed)) =
      (inOrder edits).filter (·.2 ≠ removed) := by
  have hrest : ((inOrder (edits.eraseIdx removed)).map (Prod.map id (skip removed))).Pairwise
      Precedes := by
    rw [List.pairwise_map]
    refine (pairwise_precedes_inOrder _).imp fun hprecedes ↦ ?_
    rw [precedes_iff] at hprecedes ⊢
    exact hprecedes.imp_right (And.imp_right (Or.imp_right (And.imp_right skip_lt_skip)))
  have hall := (pairwise_precedes_inOrder edits).filter (·.2 ≠ removed)
  refine hrest.eq_of_mem_iff hall fun entry ↦ ?_
  obtain ⟨edit, index⟩ := entry
  rw [List.mem_filter, (inOrder_perm edits).mem_iff, List.mk_mem_zipIdx_iff_getElem?,
    decide_eq_true_eq, ← exists_skip_iff, List.mem_map]
  constructor
  · rintro ⟨⟨_, k⟩, hmem, hentry⟩
    cases hentry
    rw [(inOrder_perm _).mem_iff, List.mk_mem_zipIdx_iff_getElem?, getElem?_eraseIdx_skip] at hmem
    exact ⟨hmem, k, rfl⟩
  · rintro ⟨hedit, k, rfl⟩
    refine ⟨(edit, k), ?_, rfl⟩
    rwa [(inOrder_perm _).mem_iff, List.mk_mem_zipIdx_iff_getElem?, getElem?_eraseIdx_skip]

section Removed

variable {removed : Nat} (hleft : (applyEdits source edits).flags[removed]? = some false)

include hleft

theorem index_ne_of_isApplied (hmem : judgement ∈ (applyEdits source edits).judgements)
    (happlied : judgement.isApplied = true) : judgement.index ≠ removed := by
  rintro rfl
  rw [getElem?_flags_of_mem hmem, happlied] at hleft
  cases hleft

/-- Without an edit that is left out all others are judged alike. -/
theorem judgements_eraseIdx :
    (applyEdits source (edits.eraseIdx removed)).judgements.map (·.renumber (skip removed)) =
      (applyEdits source edits).judgements.filter (·.index ≠ removed) := by
  calc
    _ = judgeAll source 0 ((inOrder (edits.eraseIdx removed)).map (Prod.map id (skip removed))) :=
      (judgeAll_map (skip removed) 0 _).symm
    _ = judgeAll source 0 ((inOrder edits).filter (·.2 ≠ removed)) := by rw [inOrder_eraseIdx]
    _ = _ := by
      apply judgeAll_filter
      intro judgement hmem happlied
      exact decide_eq_true (index_ne_of_isApplied hleft hmem happlied)

theorem text_eraseIdx :
    (applyEdits source (edits.eraseIdx removed)).text = (applyEdits source edits).text := by
  apply text_applyEdits_congr
  calc
    _ = appliedEdits ((applyEdits source (edits.eraseIdx removed)).judgements.map
        (·.renumber (skip removed))) := (appliedEdits_renumber _ _).symm
    _ = appliedEdits ((applyEdits source edits).judgements.filter (·.index ≠ removed)) := by
      rw [judgements_eraseIdx hleft]
    _ = _ := by
      unfold appliedEdits
      rw [List.filter_filter]
      congr 1
      apply List.filter_congr
      intro judgement hmem
      rw [Bool.and_eq_left_iff_imp, decide_eq_true_eq]
      exact index_ne_of_isApplied hleft hmem

theorem flags_eraseIdx : (applyEdits source (edits.eraseIdx removed)).flags =
    (applyEdits source edits).flags.eraseIdx removed := by
  apply List.ext_getElem?
  intro index
  rw [getElem?_eraseIdx_skip]
  cases hedit : (edits.eraseIdx removed)[index]? with
  | none =>
    rw [getElem?_flags_eq_none hedit]
    rw [getElem?_eraseIdx_skip] at hedit
    exact (getElem?_flags_eq_none hedit).symm
  | some edit =>
    obtain ⟨verdict, hmem⟩ := exists_judgement hedit
    have hrenumbered := List.mem_map_of_mem (f := (·.renumber (skip removed))) hmem
    rw [judgements_eraseIdx hleft] at hrenumbered
    rw [getElem?_flags_of_mem hmem]
    exact (getElem?_flags_of_mem (List.mem_of_mem_filter hrenumbered)).symm

end Removed

end SpecWording.Text
