import SpecWording.Proofs.Path.Route

/-!
# What is left below a base

Below a base the names are left that come after its parts, with one separator between any two. How
the base is written, with how many separators and at which end, leaves no trace.
-/

namespace SpecWording

/-- The path of names below a root. -/
def Place.relative (rest : Place) : Path := ⟨"/".intercalate rest⟩

namespace Path

variable {base path : Path} {segment : List Char} {front back : List (List Char)}
  {names : List String}

theorem dropVoid_names (h : ∀ name ∈ names, IsStep name) :
    dropVoid (names.map String.toList) = names.map String.toList := by
  cases names with
  | nil => rfl
  | cons name names =>
    apply List.dropWhile_cons_of_neg
    rw [(h name List.mem_cons_self).isVoid_eq_false]
    exact Bool.false_ne_true

theorem dropVoidEnd_names (h : ∀ name ∈ names, IsStep name) :
    dropVoidEnd (names.map String.toList) = names.map String.toList := by
  have hreverse : ∀ name ∈ names.reverse, IsStep name :=
    fun name hmem ↦ h name (List.mem_reverse.mp hmem)
  rw [dropVoidEnd, ← List.map_reverse, dropVoid_names hreverse, ← List.map_reverse,
    List.reverse_reverse]

theorem dropParts_cons_of_isVoid (hvoid : isVoid segment = true) {parts : List Part}
    (hparts : parts ≠ []) : dropParts parts (segment :: back) = dropParts parts back := by
  obtain ⟨part, parts, rfl⟩ := List.exists_cons_of_ne_nil hparts
  rw [dropParts, dropParts, dropVoid, List.dropWhile_cons_of_pos hvoid, dropVoid]

/-- The parts of the front segments take these away, but for some at their end that say nothing. -/
theorem exists_dropParts_append (front back : List (List Char)) :
    ∃ void, dropParts (partsOf front) (front ++ back) = some (void ++ back) ∧
      ∀ segment ∈ void, isVoid segment = true := by
  induction front with
  | nil => exact ⟨[], rfl, fun _ hmem ↦ absurd hmem List.not_mem_nil⟩
  | cons segment front ih =>
    cases hvoid : isVoid segment with
    | true =>
      have hparts : partsOf (segment :: front) = partsOf front := by
        rw [partsOf, List.filter_cons_of_neg (by simp [hvoid]), partsOf]
      rw [hparts]
      by_cases hnil : partsOf front = []
      · refine ⟨segment :: front, by rw [hnil, dropParts], ?_⟩
        rw [List.forall_mem_cons]
        rw [partsOf, List.map_eq_nil_iff, List.filter_eq_nil_iff] at hnil
        exact ⟨hvoid, fun other hmem ↦ by simpa using hnil other hmem⟩
      · rw [List.cons_append, dropParts_cons_of_isVoid hvoid hnil]
        exact ih
    | false =>
      have hparts : partsOf (segment :: front) = partOfSegment segment :: partsOf front := by
        rw [partsOf, List.filter_cons_of_pos (by simp [hvoid]), List.map_cons, partsOf]
      have hself : dropVoid (segment :: (front ++ back)) = segment :: (front ++ back) :=
        List.dropWhile_cons_of_neg (by simp [hvoid])
      obtain ⟨void, hdrop, hvoids⟩ := ih
      refine ⟨void, ?_, hvoids⟩
      rw [hparts, List.cons_append, dropParts, hself]
      exact (if_pos rfl).trans hdrop

/-- Names behind the parts of a base are what is left below it. -/
theorem below?_eq (hbase : base.text ≠ "") (hleading : path.split.1 = base.split.1)
    (hsegments : path.split.2 = front ++ names.map String.toList)
    (hfront : partsOf front = partsOf base.split.2) (hnames : ∀ name ∈ names, IsStep name) :
    path.below? base = some (Place.relative names) := by
  obtain ⟨void, hdrop, hvoid⟩ := exists_dropParts_append front (names.map String.toList)
  rw [hfront, ← hsegments] at hdrop
  have hrest : dropVoidEnd (dropVoid (void ++ names.map String.toList)) =
      names.map String.toList := by
    rw [dropVoid, List.dropWhile_append_of_pos hvoid, ← dropVoid, dropVoid_names hnames,
      dropVoidEnd_names hnames]
  have htext : ofSegments none (names.map String.toList) = Place.relative names := by
    rw [ofSegments, Place.relative, Text.joinFields_eq_intercalate, mk.injEq, ← String.toList_inj,
      String.toList_ofList, String.toList_intercalate]
    rfl
  unfold below?
  simp only [if_neg (parts_ne_nil hbase), if_pos hleading]
  rw [← htext, ← hrest]
  exact congrArg (Option.map fun rest ↦ ofSegments none (dropVoidEnd (dropVoid rest))) hdrop

end Path

end SpecWording
