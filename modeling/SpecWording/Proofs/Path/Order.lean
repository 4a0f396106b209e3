import Mathlib.Order.Compare
import SpecWording.Path

/-!
# The order of paths

Paths are compared part by part, and parts by what kind they are and then by their texts. So the
comparison is transitive and total, and paths tie exactly if they have the same parts.
-/

namespace SpecWording

namespace Path

namespace Part

theorem compare_eq_compareLex : Part.compare = compareLex (compareOn rank) (compareOn text) := by
  funext a b
  cases a <;> cases b <;> rfl

instance : Std.TransCmp Part.compare := by
  rw [compare_eq_compareLex]
  infer_instance

theorem eq_of_rank_text {a b : Part} (hrank : a.rank = b.rank) (htext : a.text = b.text) :
    a = b := by
  cases a <;> cases b <;> simp_all [rank, text]

instance : Std.LawfulEqCmp Part.compare where
  eq_of_compare {a b} h := by
    rw [compare_eq_compareLex, compareLex_eq_eq] at h
    exact eq_of_rank_text (Std.LawfulEqCmp.eq_of_compare h.1) (Std.LawfulEqCmp.eq_of_compare h.2)

end Part

theorem compareParts_eq_compareLex : compareParts = List.compareLex Part.compare := by
  funext as bs
  induction as generalizing bs with
  | nil => cases bs <;> rfl
  | cons a as ih =>
    cases bs with
    | nil => rfl
    | cons b bs =>
      rw [compareParts, ih, List.compareLex]
      cases a.compare b <;> rfl

instance : Std.TransCmp compareParts := by
  rw [compareParts_eq_compareLex]
  infer_instance

instance : Std.LawfulEqCmp compareParts := by
  rw [compareParts_eq_compareLex]
  infer_instance

/-- Parts that two lists begin with do not matter to their order. -/
theorem compareParts_append_left (front as bs : List Part) :
    compareParts (front ++ as) (front ++ bs) = compareParts as bs := by
  induction front with
  | nil => rfl
  | cons part front ih =>
    have hself : part.compare part = .eq := Std.ReflCmp.compare_self
    rw [List.cons_append, List.cons_append, compareParts, hself, ih]
    rfl

instance : Std.TransCmp Path.compare where
  eq_swap := by
    intro a b
    exact @Std.OrientedCmp.eq_swap _ compareParts _ _ _
  isLE_trans := by
    intro a b c
    exact @Std.TransCmp.isLE_trans _ compareParts _ _ _ _

end Path

end SpecWording
