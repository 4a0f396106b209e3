import SpecWording.Proofs.Text.Selection

/-!
# Edits in another order

Edits are judged by what they say and by their places in the list, and the places decide only
between edits of the same stretch. If those agree, it does not matter in which order the edits are
listed: the same edits are judged in the same order, and the verdicts are the same. A verdict belongs
to an edit alone if no other edit has the same stretch.
-/

namespace SpecWording.Text

open Edit

variable {source : String} {first second : List Edit} {edit : Edit} {i j : Nat}

theorem map_fst_inOrder_perm (edits : List Edit) : ((inOrder edits).map Prod.fst).Perm edits := by
  have hperm := (inOrder_perm edits).map Prod.fst
  rwa [List.zipIdx_map_fst] at hperm

theorem pairwise_map_fst_inOrder (edits : List Edit) :
    ((inOrder edits).map Prod.fst).Pairwise fun a b ↦
      a.offset < b.offset ∨ a.offset = b.offset ∧ a.length ≤ b.length := by
  rw [List.pairwise_map]
  exact (pairwise_precedes_inOrder edits).imp Precedes.stretch_le

section Reordered

variable (hperm : first.Perm second)

include hperm

section Ties

variable (hties : ∀ a ∈ first, ∀ b ∈ first, a.offset = b.offset → a.length = b.length → a = b)

include hties

/-- Edits of one stretch being equal, there is only one order to judge them in. -/
theorem map_fst_inOrder_congr : (inOrder first).map Prod.fst = (inOrder second).map Prod.fst := by
  have hsame : ((inOrder first).map Prod.fst).Perm ((inOrder second).map Prod.fst) :=
    (map_fst_inOrder_perm first).trans (hperm.trans (map_fst_inOrder_perm second).symm)
  refine hsame.eq_of_pairwise ?_ (pairwise_map_fst_inOrder first) (pairwise_map_fst_inOrder second)
  intro a b ha hb hab hba
  have haFirst : a ∈ first := (map_fst_inOrder_perm first).mem_iff.mp ha
  have hbFirst : b ∈ first := hperm.mem_iff.mpr ((map_fst_inOrder_perm second).mem_iff.mp hb)
  exact hties a haFirst b hbFirst (by omega) (by omega)

/-- Their indices apart, the judgements are the same. -/
theorem judgements_congr (source : String) :
    (applyEdits source first).judgements.map (·.renumber fun _ ↦ 0) =
      (applyEdits source second).judgements.map (·.renumber fun _ ↦ 0) := by
  have hnumbers (edits : List Edit) : (inOrder edits).map (Prod.map id fun _ ↦ 0) =
      ((inOrder edits).map Prod.fst).map (·, 0) := by
    rw [List.map_map]
    rfl
  calc
    _ = judgeAll source 0 ((inOrder first).map (Prod.map id fun _ ↦ 0)) :=
      (judgeAll_map _ 0 (inOrder first)).symm
    _ = judgeAll source 0 ((inOrder second).map (Prod.map id fun _ ↦ 0)) := by
      rw [hnumbers, map_fst_inOrder_congr hperm hties, hnumbers]
    _ = _ := judgeAll_map _ 0 (inOrder second)

theorem appliedEdits_congr (source : String) :
    appliedEdits (applyEdits source first).judgements =
      appliedEdits (applyEdits source second).judgements := by
  rw [← appliedEdits_renumber fun _ ↦ 0, judgements_congr hperm hties source,
    appliedEdits_renumber]

theorem text_applyEdits_of_perm (source : String) :
    (applyEdits source first).text = (applyEdits source second).text :=
  text_applyEdits_congr (appliedEdits_congr hperm hties source)

theorem appliedCount_of_perm (source : String) :
    (applyEdits source first).appliedCount = (applyEdits source second).appliedCount := by
  have hcount (edited : Edited) :
      edited.appliedCount = (appliedEdits edited.judgements).length := by
    rw [Edited.appliedCount, appliedEdits, List.length_map, List.countP_eq_length_filter]
  rw [hcount, hcount, appliedEdits_congr hperm hties source]

end Ties

/-- An edit whose stretch no other edit has gets its own flag in every order. -/
theorem getElem?_flags_of_perm
    (hdistinct : (first.map fun edit ↦ (edit.offset, edit.length)).Nodup)
    (hfirst : first[i]? = some edit) (hsecond : second[j]? = some edit) :
    (applyEdits source first).flags[i]? = (applyEdits source second).flags[j]? := by
  have hties : ∀ a ∈ first, ∀ b ∈ first, a.offset = b.offset → a.length = b.length → a = b := by
    intro a ha b hb hoffset hlength
    exact List.inj_on_of_nodup_map hdistinct ha hb (Prod.ext hoffset hlength)
  have hjudged : ∃ verdict, ⟨edit, i, verdict⟩ ∈ (applyEdits source first).judgements :=
    exists_judgement hfirst
  obtain ⟨verdict, hmem⟩ := hjudged
  have hnumbered := List.mem_map_of_mem (f := (·.renumber fun _ ↦ 0)) hmem
  rw [judgements_congr hperm hties source] at hnumbered
  obtain ⟨other, hother, hsame⟩ := List.mem_map.mp hnumbered
  have hedit : other.edit = edit := congrArg Judgement.edit hsame
  have hverdict : other.verdict = verdict := congrArg Judgement.verdict hsame
  have hindex : other.index = j := by
    have hnodup : second.Nodup := hperm.nodup_iff.mp (List.Nodup.of_map _ hdistinct)
    have hplace := getElem?_of_mem_judgements hother
    have hlt := (List.getElem?_eq_some_iff.mp hplace).1
    rw [hedit, ← hsecond] at hplace
    exact (List.getElem?_inj hlt hnodup).mp hplace
  calc
    (applyEdits source first).flags[i]? = some (verdict == .applied) := getElem?_flags_of_mem hmem
    _ = some other.isApplied := by rw [Judgement.isApplied, hverdict]
    _ = (applyEdits source second).flags[j]? := by rw [← hindex, getElem?_flags_of_mem hother]

end Reordered

end SpecWording.Text
