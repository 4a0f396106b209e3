import Mathlib.Data.List.Nodup
import SpecWording.Proofs.Text.Span
import SpecWording.Text.Edit

/-!
# Edits of one text

A patchwork is a text together with a revision of it: stretches that stay, each in front of one that
is replaced, and what follows the last of them. So nothing but the replaced stretches differs
between the two texts, and all else stands in the same order.

Whatever edits are asked for, the new text is a revision of the old one in the stretches of the
applied edits and nowhere else (`exists_patchwork_applyEdits`). Every edit of the list is judged
once, under its own index, and the flag at this index is the one that the judgement gives
(`getElem?_flags_of_mem`).
-/

namespace SpecWording.Text

inductive Patchwork where
  | rest (text : List Char)
  | patch (kept old new : List Char) (following : Patchwork)
  deriving DecidableEq, Repr

namespace Patchwork

def original : Patchwork → List Char
  | rest text => text
  | patch kept old _ following => kept ++ old ++ following.original

def revised : Patchwork → List Char
  | rest text => text
  | patch kept _ new following => kept ++ new ++ following.revised

/-- The replaced stretches with their new texts, when another text stands before all of them. -/
def stretchesAfter (before : List Char) : Patchwork → List (Span × List Char)
  | rest _ => []
  | patch kept old new following =>
    (⟨before ++ kept, old, following.original⟩, new) ::
      following.stretchesAfter (before ++ kept ++ old)

/-- The replaced stretches of the original text with their new texts, in order. -/
def stretches (patchwork : Patchwork) : List (Span × List Char) := patchwork.stretchesAfter []

end Patchwork

/-! ## Judgements -/

/-- What was judged: the edit with its index. -/
def Judgement.entry (judgement : Judgement) : Edit × Nat := (judgement.edit, judgement.index)

namespace Edit

def stop (edit : Edit) : Nat := edit.offset + edit.length

/-- Whether one of two edits ends before the other one starts. -/
def Apart (a b : Edit) : Prop := a.stop ≤ b.offset ∨ b.stop ≤ a.offset

theorem Apart.symm {a b : Edit} (h : a.Apart b) : b.Apart a := Or.symm h

variable {source : String} {edit : Edit} {span : Span}

theorem span?_eq_some_iff : edit.span? source = some span ↔
    span.source = source.toList ∧ span.start = edit.offset ∧ span.stop = edit.stop :=
  Span.ofRange?_eq_some_iff

theorem judge_eq_applied_iff {position : Nat} : judge source position edit = .applied ↔
    ∃ span, edit.span? source = some span ∧ position ≤ span.before.length := by
  unfold judge
  cases edit.span? source with
  | none => simp
  | some span => simp

theorem settled_applied (position : Nat) (h : edit.span? source = some span) :
    settled source position edit .applied = span.before.length + span.content.length := by
  unfold settled
  rw [h]

theorem settled_of_ne {verdict : Verdict} (position : Nat) (h : verdict ≠ .applied) :
    settled source position edit verdict = position := by
  unfold settled
  split
  · exact absurd rfl h
  · rfl

theorem judge_eq_outside (position : Nat) (h : edit.span? source = none) :
    judge source position edit = .outside := by
  rw [judge, h]

/-- Whether an edit begins before the end of a front is the same in bytes and in characters. -/
theorem judge_eq_ite {front : List Char} (hfront : front <+: source.toList)
    (h : edit.span? source = some span) : judge source front.length edit =
      if span.start < byteLength front then .overlapping else .applied := by
  have hposition := byteLength_le_iff hfront (Span.prefix_of_ofRange? h)
  split
  · next hbytes =>
    have hlt : ¬ front.length ≤ span.before.length :=
      fun hle ↦ absurd (hposition.mpr hle) (Nat.not_le.mpr hbytes)
    simp [judge, h, hlt]
  · next hbytes =>
    exact judge_eq_applied_iff.mpr ⟨span, h, hposition.mp (Nat.not_lt.mp hbytes)⟩

/-! ## The order of judging -/

theorem comesFirst_trans (a b c : Edit × Nat) (hab : comesFirst a b) (hbc : comesFirst b c) :
    comesFirst a c := by
  unfold comesFirst at *
  simp only [Bool.or_eq_true, Bool.and_eq_true, decide_eq_true_eq, beq_iff_eq] at *
  omega

theorem comesFirst_total (a b : Edit × Nat) : comesFirst a b || comesFirst b a := by
  unfold comesFirst
  simp only [Bool.or_eq_true, Bool.and_eq_true, decide_eq_true_eq, beq_iff_eq]
  omega

theorem inOrder_perm (edits : List Edit) : (inOrder edits).Perm edits.zipIdx :=
  List.mergeSort_perm _ _

theorem pairwise_inOrder (edits : List Edit) :
    (inOrder edits).Pairwise fun a b ↦ comesFirst a b = true :=
  List.pairwise_mergeSort comesFirst_trans comesFirst_total _

/-! ## Judging -/

theorem map_judgeAll (position : Nat) (entries : List (Edit × Nat)) :
    (judgeAll source position entries).map Judgement.entry = entries := by
  induction entries generalizing position with
  | nil => rfl
  | cons entry entries ih =>
    obtain ⟨edit, index⟩ := entry
    rw [judgeAll, List.map_cons, ih]
    rfl

/-! ## Putting the new text together -/

theorem replaced_cons_of_applied {index : Nat} {judgements : List Judgement}
    (h : edit.span? source = some span) :
    replaced source (⟨edit, index, .applied⟩ :: judgements) =
      (span, edit.newText) :: replaced source judgements := by
  simp [replaced, Judgement.isApplied, h]

theorem replaced_cons_of_ne {index : Nat} {judgements : List Judgement} {verdict : Verdict}
    (h : verdict ≠ .applied) :
    replaced source (⟨edit, index, verdict⟩ :: judgements) = replaced source judgements := by
  simp [replaced, Judgement.isApplied, h]

/-- Stretches of a text from left to right, all of them to the right of a position. -/
def LeftToRight (text : List Char) (position : Nat) : List (Span × String) → Prop
  | [] => True
  | (span, _) :: others => span.source = text ∧ position ≤ span.before.length ∧
      LeftToRight text (span.before.length + span.content.length) others

/-- The stretches of applied edits begin to the right of the position each was judged at. -/
theorem leftToRight_replaced (source : String) (position : Nat) (entries : List (Edit × Nat)) :
    LeftToRight source.toList position (replaced source (judgeAll source position entries)) := by
  induction entries generalizing position with
  | nil => trivial
  | cons entry entries ih =>
    obtain ⟨edit, index⟩ := entry
    rw [judgeAll]
    by_cases happlied : judge source position edit = .applied
    · obtain ⟨span, hspan, hposition⟩ := judge_eq_applied_iff.mp happlied
      have hfollowing := ih (span.before.length + span.content.length)
      rw [happlied, settled_applied position hspan, replaced_cons_of_applied hspan]
      exact ⟨(span?_eq_some_iff.mp hspan).1, hposition, hfollowing⟩
    · rw [settled_of_ne position happlied, replaced_cons_of_ne happlied]
      exact ih position

/-- Splicing revises the text in the given stretches only. -/
theorem exists_patchwork_splice {text : List Char} {position : Nat}
    {stretches : List (Span × String)} (h : LeftToRight text position stretches) :
    ∃ patchwork : Patchwork, patchwork.original = text.drop position ∧
      patchwork.revised = splice text position stretches ∧
      patchwork.stretchesAfter (text.take position) =
        stretches.map fun stretch ↦ (stretch.1, stretch.2.toList) := by
  induction stretches generalizing position with
  | nil => exact ⟨.rest (text.drop position), rfl, rfl, rfl⟩
  | cons stretch others ih =>
    obtain ⟨⟨before, content, after⟩, newText⟩ := stretch
    obtain ⟨rfl, hposition, hothers⟩ := h
    obtain ⟨following, horiginal, hrevised, hstretches⟩ := ih hothers
    simp only [Span.source] at *
    have hstart : before.length + content.length = (before ++ content).length :=
      List.length_append.symm
    have htake : (before ++ content ++ after).take position = before.take position := by
      rw [List.append_assoc, List.take_append_of_le_length hposition]
    rw [hstart, List.drop_left] at horiginal
    rw [hstart, List.take_left] at hstretches
    refine ⟨.patch (before.drop position) content newText.toList following, ?_, ?_, ?_⟩
    · rw [Patchwork.original, horiginal, List.append_assoc, List.append_assoc,
        List.drop_append_of_le_length hposition]
    · rw [Patchwork.revised, hrevised, splice]
    · rw [Patchwork.stretchesAfter, htake, List.take_append_drop, hstretches, horiginal]
      rfl

end Edit

open Edit

variable {source : String} {edits : List Edit} {edit : Edit} {index : Nat} {judgement : Judgement}

/-- The new text revises the old one in the stretches of the applied edits and nowhere else. -/
theorem exists_patchwork_applyEdits (source : String) (edits : List Edit) :
    ∃ patchwork : Patchwork, patchwork.original = source.toList ∧
      patchwork.revised = (applyEdits source edits).text.toList ∧
      patchwork.stretches = (replaced source (applyEdits source edits).judgements).map
        fun stretch ↦ (stretch.1, stretch.2.toList) := by
  obtain ⟨patchwork, horiginal, hrevised, hstretches⟩ :=
    exists_patchwork_splice (leftToRight_replaced source 0 (inOrder edits))
  refine ⟨patchwork, horiginal, ?_, hstretches⟩
  rw [hrevised, applyEdits, String.toList_ofList]

/-! ## Flags and judgements -/

theorem map_entry_judgements (source : String) (edits : List Edit) :
    (applyEdits source edits).judgements.map Judgement.entry = inOrder edits :=
  map_judgeAll 0 (inOrder edits)

theorem judgements_perm (source : String) (edits : List Edit) :
    ((applyEdits source edits).judgements.map Judgement.entry).Perm edits.zipIdx := by
  rw [map_entry_judgements]
  exact inOrder_perm edits

theorem length_judgements (source : String) (edits : List Edit) :
    (applyEdits source edits).judgements.length = edits.length := by
  simpa using (judgements_perm source edits).length_eq

theorem length_flags (source : String) (edits : List Edit) :
    (applyEdits source edits).flags.length = edits.length := by
  rw [Edited.flags, List.length_map, List.length_range, length_judgements]

/-- An edit at an index of the list is judged as such. -/
theorem exists_judgement (h : edits[index]? = some edit) :
    ∃ verdict, ⟨edit, index, verdict⟩ ∈ (applyEdits source edits).judgements := by
  have hentry : (edit, index) ∈ (applyEdits source edits).judgements.map Judgement.entry :=
    (judgements_perm source edits).mem_iff.mpr (List.mk_mem_zipIdx_iff_getElem?.mpr h)
  obtain ⟨⟨_, _, verdict⟩, hmem, hentry⟩ := List.mem_map.mp hentry
  cases hentry
  exact ⟨verdict, hmem⟩

theorem getElem?_of_mem_judgements (h : judgement ∈ (applyEdits source edits).judgements) :
    edits[judgement.index]? = some judgement.edit :=
  List.mk_mem_zipIdx_iff_getElem?.mp
    ((judgements_perm source edits).mem_iff.mp (List.mem_map_of_mem h))

theorem appliedAt_of_mem (h : judgement ∈ (applyEdits source edits).judgements) :
    (applyEdits source edits).appliedAt judgement.index = judgement.isApplied := by
  have hnodup : ((applyEdits source edits).judgements.map Judgement.index).Nodup := by
    have hindices := (judgements_perm source edits).map Prod.snd
    rw [List.map_map, List.zipIdx_map_snd] at hindices
    exact hindices.nodup_iff.mpr (List.nodup_range' 1)
  rw [Edited.appliedAt, Bool.eq_iff_iff, List.any_eq_true]
  constructor
  · rintro ⟨other, hmem, hother⟩
    obtain ⟨hsame, happlied⟩ := Bool.and_eq_true_iff.mp hother
    obtain rfl := List.inj_on_of_nodup_map hnodup hmem h (beq_iff_eq.mp hsame)
    exact happlied
  · intro happlied
    exact ⟨judgement, h, by rw [BEq.rfl, happlied, Bool.and_self]⟩

/-- The flag of an edit is the one that its judgement gives. -/
theorem getElem?_flags_of_mem (h : judgement ∈ (applyEdits source edits).judgements) :
    (applyEdits source edits).flags[judgement.index]? = some judgement.isApplied := by
  have hindex : judgement.index < (applyEdits source edits).judgements.length := by
    rw [length_judgements]
    exact (List.getElem?_eq_some_iff.mp (getElem?_of_mem_judgements h)).1
  rw [Edited.flags, List.getElem?_map, List.getElem?_range hindex, Option.map_some,
    appliedAt_of_mem h]

theorem getElem?_flags_eq_none (h : edits[index]? = none) :
    (applyEdits source edits).flags[index]? = none := by
  rw [List.getElem?_eq_none_iff] at h ⊢
  rwa [length_flags]

/-- Every flag is that of a judgement. -/
theorem mem_flags_iff {flag : Bool} : flag ∈ (applyEdits source edits).flags ↔
    ∃ judgement ∈ (applyEdits source edits).judgements, judgement.isApplied = flag := by
  constructor
  · intro hflag
    obtain ⟨index, hindex⟩ := List.mem_iff_getElem?.mp hflag
    cases hedit : edits[index]? with
    | none =>
      rw [getElem?_flags_eq_none hedit] at hindex
      cases hindex
    | some edit =>
      obtain ⟨verdict, hmem⟩ : ∃ verdict, ⟨edit, index, verdict⟩ ∈
          (applyEdits source edits).judgements := exists_judgement hedit
      rw [getElem?_flags_of_mem hmem, Option.some.injEq] at hindex
      exact ⟨_, hmem, hindex⟩
  · rintro ⟨judgement, hmem, rfl⟩
    exact List.mem_of_getElem? (getElem?_flags_of_mem hmem)

/-! ## Edits that change nothing -/

/-- Some edits are applied, and all applied edits together give the text back. -/
def Edited.Restates (edited : Edited) (source : String) : Prop :=
  (∃ judgement ∈ edited.judgements, judgement.isApplied = true) ∧ edited.text = source

theorem text_applyEdits_of_forall_not_applied
    (h : ∀ judgement ∈ (applyEdits source edits).judgements, judgement.isApplied = false) :
    (applyEdits source edits).text = source := by
  have hnone : (applyEdits source edits).judgements.filter (·.isApplied) = [] := by
    rw [List.filter_eq_nil_iff]
    intro judgement hmem
    rw [h judgement hmem]
    exact Bool.false_ne_true
  have hreplaced : replaced source (applyEdits source edits).judgements = [] := by
    rw [replaced, hnone, List.filterMap_nil]
  calc (applyEdits source edits).text
      = String.ofList (splice source.toList 0
          (replaced source (applyEdits source edits).judgements)) := rfl
    _ = String.ofList (source.toList.drop 0) := by rw [hreplaced, splice]
    _ = source := by rw [List.drop_zero, String.ofList_toList]

/-! ## Edits that are all applied -/

/-- If every edit is applied, every flag says so. -/
theorem flags_eq_replicate
    (h : ∀ judgement ∈ (applyEdits source edits).judgements, judgement.verdict = .applied) :
    (applyEdits source edits).flags = List.replicate edits.length true := by
  rw [List.eq_replicate_iff]
  refine ⟨length_flags source edits, fun flag hflag ↦ ?_⟩
  obtain ⟨judgement, hmem, rfl⟩ := mem_flags_iff.mp hflag
  rw [Judgement.isApplied, h judgement hmem]
  rfl

/-- If every edit is applied, the replaced stretches are those of all edits. -/
theorem replaced_perm
    (h : ∀ judgement ∈ (applyEdits source edits).judgements, judgement.verdict = .applied) :
    (replaced source (applyEdits source edits).judgements).Perm
      (edits.filterMap fun edit ↦ (edit.span? source).map (·, edit.newText)) := by
  have hall : (applyEdits source edits).judgements.filter (·.isApplied) =
      (applyEdits source edits).judgements := by
    rw [List.filter_eq_self]
    intro judgement hmem
    simp [Judgement.isApplied, h judgement hmem]
  have hedits : ((applyEdits source edits).judgements.map (·.edit)).Perm edits := by
    have hperm := (judgements_perm source edits).map Prod.fst
    rwa [List.map_map, List.zipIdx_map_fst] at hperm
  rw [replaced, hall]
  have hperm := hedits.filterMap fun edit ↦ (edit.span? source).map (·, edit.newText)
  rwa [List.filterMap_map] at hperm

end SpecWording.Text
