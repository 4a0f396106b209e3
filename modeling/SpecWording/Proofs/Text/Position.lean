import SpecWording.Proofs.Text.Span

/-!
# Lines and columns

Lines count line feeds and columns count characters, offsets count bytes. Of two spans of one text
the one that starts later starts on a later line, or on the same line in a later column. So lines
and then columns order the spans of a text as their offsets do, whatever its characters are.
-/

namespace SpecWording.Text.Span

variable {a b : Span} {between : List Char}

/-- Behind at least one more character everything is later. -/
theorem start_lt_of_before (h : b.before = a.before ++ between) (hne : between ≠ []) :
    a.start < b.start := by
  have hpos : 0 < byteLength between := Nat.pos_of_ne_zero (mt byteLength_eq_zero_iff.mp hne)
  rw [start, start, h, byteLength_append]
  exact Nat.lt_add_of_pos_right hpos

theorem line_lt_of_before (h : b.before = a.before ++ between) (hbreak : '\n' ∈ between) :
    a.line < b.line := by
  have hpos : 0 < between.count '\n' := List.count_pos_iff.mpr hbreak
  rw [line, line, h, List.count_append]
  omega

theorem line_eq_of_before (h : b.before = a.before ++ between) (hbreak : '\n' ∉ between) :
    b.line = a.line := by
  rw [line, line, h, List.count_append, List.count_eq_zero_of_not_mem hbreak, Nat.add_zero]

theorem column_eq_of_before (h : b.before = a.before ++ between) (hbreak : '\n' ∉ between) :
    b.column = a.column + between.length := by
  have hpos : ∀ c ∈ between.reverse, (c != '\n') = true := by
    intro c hc
    rw [bne_iff_ne]
    rintro rfl
    exact hbreak (List.mem_reverse.mp hc)
  rw [column, column, h, List.reverse_append, List.takeWhile_append_of_pos hpos,
    List.length_append, List.length_reverse]
  omega

/-- The span that starts later stands in a later line or column. -/
theorem position_lt_of_before (h : b.before = a.before ++ between) (hne : between ≠ []) :
    (compare a.line b.line).then (compare a.column b.column) = .lt := by
  by_cases hbreak : '\n' ∈ between
  · rw [Nat.compare_eq_lt.mpr (line_lt_of_before h hbreak)]
    rfl
  · have hlength : 0 < between.length := List.length_pos_iff.mpr hne
    have hcolumn : a.column < b.column := by
      rw [column_eq_of_before h hbreak]
      omega
    rw [line_eq_of_before h hbreak, Nat.compare_eq_eq.mpr rfl, Nat.compare_eq_lt.mpr hcolumn]
    rfl

theorem compare_position_of_before (h : a.before <+: b.before) :
    (compare a.line b.line).then (compare a.column b.column) = compare a.start b.start := by
  obtain ⟨between, hbetween⟩ := h
  by_cases hne : between = []
  · rw [hne, List.append_nil] at hbetween
    simp [line, column, start, hbetween]
  · rw [position_lt_of_before hbetween.symm hne,
      Nat.compare_eq_lt.mpr (start_lt_of_before hbetween.symm hne)]

/-- By line and then column, spans of one text come in the order of their offsets. -/
theorem compare_position (h : a.source = b.source) :
    (compare a.line b.line).then (compare a.column b.column) = compare a.start b.start := by
  have ha : a.before <+: b.source := by
    rw [← h, source, List.append_assoc]
    exact List.prefix_append _ _
  have hb : b.before <+: b.source := by
    rw [source, List.append_assoc]
    exact List.prefix_append _ _
  rcases List.prefix_or_prefix_of_prefix ha hb with hprefix | hprefix
  · exact compare_position_of_before hprefix
  · calc (compare a.line b.line).then (compare a.column b.column)
        = ((compare b.line a.line).then (compare b.column a.column)).swap := by
          rw [Ordering.swap_then, Nat.compare_swap, Nat.compare_swap]
      _ = (compare b.start a.start).swap := by rw [compare_position_of_before hprefix]
      _ = compare a.start b.start := Nat.compare_swap _ _

/-- A span starts before another one exactly if its line is an earlier one, or its column is an
earlier one on the same line. -/
theorem start_lt_iff (h : a.source = b.source) :
    a.start < b.start ↔ a.line < b.line ∨ a.line = b.line ∧ a.column < b.column := by
  rw [← Nat.compare_eq_lt, ← compare_position h, Ordering.then_eq_lt, Nat.compare_eq_lt,
    Nat.compare_eq_eq, Nat.compare_eq_lt]

theorem start_eq_iff (h : a.source = b.source) :
    a.start = b.start ↔ a.line = b.line ∧ a.column = b.column := by
  rw [← Nat.compare_eq_eq, ← compare_position h, Ordering.then_eq_eq, Nat.compare_eq_eq,
    Nat.compare_eq_eq]

end SpecWording.Text.Span
