import SpecWording.Proofs.Offsets.Spans

/-!
# The inside of a range

A literal's content is its range without the first and the last character, however many bytes these
have. The two are different characters, so what is left is a slice again: cutting them off by their
sizes neither passes the other end nor stops inside a character.
-/

namespace SpecWording.Offsets

open Text (Span byteLength)

variable {source : String} {start stop : Nat} {span : Span}

theorem two_le_length_iff {cs : List Char} :
    2 ≤ cs.length ↔ ∃ first middle last, cs = first :: (middle ++ [last]) := by
  constructor
  · intro h
    cases cs with
    | nil => simp at h
    | cons first others =>
      rcases List.eq_nil_or_concat others with rfl | ⟨middle, last, rfl⟩
      · simp at h
      · exact ⟨first, middle, last, by rw [List.concat_eq_append]⟩
  · rintro ⟨first, middle, last, rfl⟩
    simp

/-- A slice of a text is what the span between its ends covers. -/
theorem exists_span_of_cut (h : Extent.Fits source ⟨start, stop⟩) :
    ∃ span, Span.ofRange? source start stop = some span ∧ Extent.cut h = span.text := by
  obtain ⟨span, hspan⟩ := exists_span_of_fits h
  obtain ⟨hsource, rfl, rfl⟩ := Span.ofRange?_eq_some_iff.mp hspan
  exact ⟨span, hspan, cut_extentOf hsource h⟩

/-- There is an inside wherever a slice has two characters. -/
theorem isSome_inner?_iff : (Span.inner? source start stop).isSome ↔
    ∃ h : Extent.Fits source ⟨start, stop⟩, 2 ≤ (Extent.cut h).length := by
  rw [Option.isSome_iff_exists]
  constructor
  · rintro ⟨span, hspan⟩
    obtain ⟨outer, first, last, houter, hcontent, -, -⟩ := Span.inner?_eq_some_iff.mp hspan
    have hfits : Extent.Fits source ⟨start, stop⟩ := fits_iff.mpr ⟨outer, houter⟩
    obtain ⟨outer', houter', hcut⟩ := exists_span_of_cut hfits
    obtain rfl := Option.some.inj (houter.symm.trans houter')
    refine ⟨hfits, ?_⟩
    rw [hcut, Span.text, String.length_ofList, hcontent, two_le_length_iff]
    exact ⟨first, span.content, last, rfl⟩
  · rintro ⟨hfits, hlength⟩
    obtain ⟨outer, houter, hcut⟩ := exists_span_of_cut hfits
    rw [hcut, Span.text, String.length_ofList, two_le_length_iff] at hlength
    obtain ⟨first, middle, last, hcontent⟩ := hlength
    exact ⟨⟨outer.before ++ [first], middle, last :: outer.after⟩,
      Span.inner?_eq_some_iff.mpr ⟨outer, first, last, houter, hcontent, rfl, rfl⟩⟩

/-- Whether a span is a range of a text but for the first and the last character of the range. -/
def IsInside (source : String) (start stop : Nat) (span : Span) : Prop :=
  span.source = source.toList ∧
    ∃ (h : Extent.Fits source ⟨start, stop⟩) (first last : Char),
      Extent.cut h = String.singleton first ++ span.text ++ String.singleton last ∧
      start + first.utf8Size = span.start ∧ span.stop + last.utf8Size = stop

theorem isInside_of_inner? (h : Span.inner? source start stop = some span) :
    IsInside source start stop span := by
  obtain ⟨outer, first, last, houter, hcontent, hbefore, -⟩ := Span.inner?_eq_some_iff.mp h
  obtain ⟨hsource, rfl, rfl⟩ := Span.ofRange?_eq_some_iff.mp houter
  refine ⟨Span.source_eq_of_inner? h, fits_extentOf hsource, first, last, ?_, ?_, ?_⟩
  · calc
      Extent.cut (fits_extentOf hsource) = outer.text := cut_extentOf hsource _
      _ = String.singleton first ++ span.text ++ String.singleton last := by
        apply String.toList_inj.mp
        simp [Span.text, hcontent]
  · simp [Span.start, hbefore]
  · simp only [Span.stop, Span.start, Span.length, hbefore, hcontent, Text.byteLength_append,
      Text.byteLength_cons, Text.byteLength_nil]
    omega

/-- The characters at the ends of a slice can be told from it, so a range has one inside. -/
theorem IsInside.eq {other : Span} (hspan : IsInside source start stop span)
    (hother : IsInside source start stop other) : span = other := by
  obtain ⟨hsource, hfits, first, last, hcut, hstart, hstop⟩ := hspan
  obtain ⟨hsource', hfits', first', last', hcut', hstart', hstop'⟩ := hother
  have hslice := congrArg String.toList (hcut.symm.trans hcut')
  simp only [String.toList_append, String.toList_singleton, List.cons_append, List.cons.injEq]
    at hslice
  obtain ⟨rfl, htail⟩ := hslice
  obtain ⟨-, hlast⟩ := List.append_inj' htail rfl
  obtain rfl : last = last' := List.cons.inj hlast |>.1
  have hrange := Span.ofRange?_start_stop hsource
  have hrange' := Span.ofRange?_start_stop hsource'
  have hsame : span.start = other.start ∧ span.stop = other.stop := by omega
  rw [hsame.1, hsame.2, hrange', Option.some.injEq] at hrange
  exact hrange.symm

theorem inner?_eq_some_iff_isInside :
    Span.inner? source start stop = some span ↔ IsInside source start stop span := by
  refine ⟨isInside_of_inner?, fun h ↦ ?_⟩
  have hsome : (Span.inner? source start stop).isSome := by
    obtain ⟨-, hfits, first, last, hcut, -, -⟩ := h
    refine isSome_inner?_iff.mpr ⟨hfits, ?_⟩
    rw [hcut]
    simp
  obtain ⟨other, hother⟩ := Option.isSome_iff_exists.mp hsome
  rw [hother, h.eq (isInside_of_inner? hother)]

/-- A range has an inside exactly where it is a slice of at least two characters, and the inside is
what is left of the slice without its first and its last character. Computed by offsets it is the
same, in any text that a machine word can measure. -/
theorem inner?_takes_ends_off (source : String) (start stop : Nat) :
    ((Span.inner? source start stop).isSome ↔
      ∃ h : Extent.Fits source ⟨start, stop⟩, 2 ≤ (Extent.cut h).length) ∧
    (∀ span, Span.inner? source start stop = some span ↔ IsInside source start stop span) ∧
    (∀ span, IsInside source start stop span → start < span.start ∧ span.stop < stop ∧
      ∃ h : (extentOf span).Fits source, Extent.cut h = span.text) ∧
    (source.utf8ByteSize < wordLimit → Gives source (inner? source start stop)
      ((Span.inner? source start stop).map extentOf)) := by
  refine ⟨isSome_inner?_iff, fun span ↦ inner?_eq_some_iff_isInside, fun span h ↦ ?_, gives_inner?⟩
  have hlt := Span.lt_of_inner? (inner?_eq_some_iff_isInside.mpr h)
  have hfits := fits_extentOf h.1
  exact ⟨hlt.1, hlt.2, hfits, cut_extentOf h.1 hfits⟩

/-- The ends are characters of three and of four bytes, and the inside has two. -/
theorem inner?_takes_ends_off_wide : "it 「é𝄞".utf8ByteSize < wordLimit ∧
    (Span.inner? "it 「é𝄞" 3 12).map extentOf = some ⟨6, 8⟩ ∧
    Span.inner? "it 「é𝄞" 3 11 = none ∧ Span.inner? "it 「é𝄞" 12 3 = none ∧
    Gives "it 「é𝄞" (inner? "it 「é𝄞" 3 12) (some ⟨6, 8⟩) := by
  have hsize : "it 「é𝄞".utf8ByteSize < wordLimit := by decide
  have hinner : (Span.inner? "it 「é𝄞" 3 12).map extentOf = some ⟨6, 8⟩ := by decide
  have hgives := (inner?_takes_ends_off "it 「é𝄞" 3 12).2.2.2 hsize
  rw [hinner] at hgives
  exact ⟨hsize, hinner, by decide, by decide, hgives⟩

end SpecWording.Offsets
