import SpecWording.Text.Span

/-!
# Spans of one text

Places of one text are compared by their offsets in bytes or by the numbers of characters before
them; both ways agree, since characters have at least one byte. The span inside a literal is its
range without a character at each end, so it lies strictly inside the range.
-/

namespace SpecWording.Text

theorem byteLength_eq_zero_iff {cs : List Char} : byteLength cs = 0 ↔ cs = [] := by
  cases cs with
  | nil => simp
  | cons c cs =>
    have hpos := c.utf8Size_pos
    simp only [byteLength_cons, reduceCtorEq, iff_false]
    omega

theorem utf8ByteSize_ofList (cs : List Char) : (String.ofList cs).utf8ByteSize = byteLength cs := by
  induction cs with
  | nil => simp
  | cons c cs ih =>
    rw [byteLength_cons, ← ih]
    simp

theorem byteLength_toList (source : String) : byteLength source.toList = source.utf8ByteSize := by
  rw [← utf8ByteSize_ofList, String.ofList_toList]

/-- Of two first parts of a text, the one with fewer bytes has fewer characters. -/
theorem byteLength_le_iff {xs ys text : List Char} (hxs : xs <+: text) (hys : ys <+: text) :
    byteLength xs ≤ byteLength ys ↔ xs.length ≤ ys.length := by
  rcases List.prefix_or_prefix_of_prefix hxs hys with ⟨zs, rfl⟩ | ⟨zs, rfl⟩
  · simp
  · have hzero : byteLength zs = 0 ↔ zs.length = 0 := by
      rw [byteLength_eq_zero_iff, List.length_eq_zero_iff]
    simp only [byteLength_append, List.length_append]
    omega

namespace Span

variable {source : String} {start stop : Nat} {span : Span}

/-- A span of a text is found again by the offsets of its ends. -/
theorem ofRange?_start_stop (h : span.source = source.toList) :
    ofRange? source span.start span.stop = some span :=
  ofRange?_eq_some_iff.mpr ⟨h, rfl, rfl⟩

theorem prefix_of_ofRange? (h : ofRange? source start stop = some span) :
    span.before <+: source.toList := by
  obtain ⟨hsource, -, -⟩ := ofRange?_eq_some_iff.mp h
  rw [← hsource, Span.source, List.append_assoc]
  exact List.prefix_append _ _

/-! ## The span inside a literal -/

theorem inner?_eq_some_iff :
    inner? source start stop = some span ↔ ∃ outer first last,
      ofRange? source start stop = some outer ∧ outer.content = first :: (span.content ++ [last]) ∧
      span.before = outer.before ++ [first] ∧ span.after = last :: outer.after := by
  unfold inner?
  rw [Option.bind_eq_bind, Option.bind_eq_some_iff]
  constructor
  · rintro ⟨outer, houter, h⟩
    split at h
    · next first second rest hcontent =>
      cases h
      refine ⟨outer, first, _, houter, ?_, rfl, rfl⟩
      rw [hcontent, List.dropLast_concat_getLast]
    · cases h
  · rintro ⟨outer, first, last, houter, hcontent, hbefore, hafter⟩
    refine ⟨outer, houter, ?_⟩
    split
    · next first' second rest hcontent' =>
      rw [hcontent] at hcontent'
      obtain ⟨rfl, htail⟩ := List.cons.inj hcontent'
      obtain ⟨before, content, after⟩ := span
      simp only at htail hbefore hafter
      simp [← htail, hbefore, hafter]
    · next hshort =>
      obtain ⟨second, rest, htail⟩ : ∃ second rest, span.content ++ [last] = second :: rest :=
        List.exists_cons_of_ne_nil (by simp)
      exact absurd (hcontent.trans (by rw [htail])) (hshort first second rest)

theorem source_eq_of_inner? (h : inner? source start stop = some span) :
    span.source = source.toList := by
  obtain ⟨outer, first, last, houter, hcontent, hbefore, hafter⟩ := inner?_eq_some_iff.mp h
  rw [← (ofRange?_eq_some_iff.mp houter).1]
  simp [Span.source, hcontent, hbefore, hafter]

/-- At each end a character of the range stays outside. -/
theorem lt_of_inner? (h : inner? source start stop = some span) :
    start < span.start ∧ span.stop < stop := by
  obtain ⟨outer, first, last, houter, hcontent, hbefore, hafter⟩ := inner?_eq_some_iff.mp h
  obtain ⟨-, rfl, rfl⟩ := ofRange?_eq_some_iff.mp houter
  have hfirst := first.utf8Size_pos
  have hlast := last.utf8Size_pos
  simp only [Span.start, Span.stop, Span.length, hcontent, hbefore, byteLength_append,
    byteLength_cons, byteLength_nil]
  omega

end Span

end SpecWording.Text
