import Mathlib.Data.List.TakeWhile
import SpecWording.Proofs.Offsets.Checked

/-!
# Spans by their offsets

What a span can tell, computed from its two offsets: the literal's content, its length and text, and
its line and column. Each computation gives what the span of characters says. None of them needs
more than the span's text to be there; the position needs that the text does not fill a machine word.
-/

namespace SpecWording.Offsets

open Text (Span byteLength byteLength_append byteLength_cons utf8ByteSize_ofList)

/-- The range of a literal without its first and last character, if it fits. -/
def inner? (source : String) (start stop : Nat) : Checked (Option Extent) :=
  match (get? source start stop).map String.toList with
  | some (first :: others) =>
    match others.getLast? with
    | some last => do
      let start ← add start first.utf8Size
      let stop ← subtract stop last.utf8Size
      build? source start stop
    | none => return none
  | _ => return none

/-- The offset of a text's last line break. -/
def lastBreak? : List Char → Option Nat
  | [] => none
  | c :: cs =>
    match lastBreak? cs with
    | some offset => some (c.utf8Size + offset)
    | none => if c = '\n' then some 0 else none

/-- The offset at which a text's last line begins. -/
def lineStart (text : List Char) : Checked Nat :=
  match lastBreak? text with
  | some offset => add offset 1
  | none => pure 0

namespace Extent

def length (extent : Extent) : Checked Nat := subtract extent.stop extent.start

def text (source : String) (extent : Extent) : Checked String :=
  slice source extent.start extent.stop

/-- The line and the column where an extent starts. -/
def position (source : String) (extent : Extent) : Checked (Nat × Nat) := do
  let before ← slice source 0 extent.start
  let line ← add (before.toList.count '\n') 1
  let start ← lineStart before.toList
  let rest ← slice before start before.utf8ByteSize
  let column ← add rest.toList.length 1
  return (line, column)

end Extent

variable {source : String} {start stop : Nat} {span : Span}

theorem gives_inner? (hsize : source.utf8ByteSize < wordLimit) :
    Gives source (inner? source start stop) ((Span.inner? source start stop).map extentOf) := by
  rw [inner?, get?_eq]
  cases houter : Span.ofRange? source start stop with
  | none =>
    rw [Span.inner?, houter]
    exact gives_pure none
  | some outer =>
    obtain ⟨before, content, after⟩ := outer
    obtain ⟨hsource, hstart, hstop⟩ := Span.ofRange?_eq_some_iff.mp houter
    simp only [Option.map_some, Span.text, String.toList_ofList]
    cases content with
    | nil =>
      rw [Span.inner?, houter]
      exact gives_pure none
    | cons first others =>
      rcases List.eq_nil_or_concat others with rfl | ⟨middle, last, rfl⟩
      · rw [Span.inner?, houter]
        exact gives_pure none
      · have hinner : Span.inner? source start stop =
            some ⟨before ++ [first], middle, last :: after⟩ :=
          Span.inner?_eq_some_iff.mpr ⟨_, first, last, houter, by simp, rfl, rfl⟩
        have hfits : stop ≤ source.utf8ByteSize := (fits_iff.mpr ⟨_, houter⟩).within
        simp only [Span.start, Span.stop, Span.length, byteLength_cons, byteLength_append,
          List.concat_eq_append, Text.byteLength_nil] at hstart hstop
        have hspan : Span.ofRange? source (start + first.utf8Size) (stop - last.utf8Size) =
            some ⟨before ++ [first], middle, last :: after⟩ := by
          refine Span.ofRange?_eq_some_iff.mpr ⟨?_, ?_, ?_⟩
          · rw [← hsource]
            simp [Span.source]
          · simp [Span.start, hstart]
          · simp [Span.stop, Span.start, Span.length, hstart]
            omega
        have hbuilt := gives_build? source (start + first.utf8Size) (stop - last.utf8Size)
        rw [hspan] at hbuilt
        rw [hinner]
        simp only [List.concat_eq_append, List.getLast?_concat]
        exact (gives_add (by omega)).bind ((gives_subtract (by omega)).bind hbuilt)

theorem gives_length (span : Span) : Gives source (extentOf span).length span.length := by
  have hlength : span.stop - span.start = span.length := Nat.add_sub_cancel_left ..
  rw [← hlength]
  exact gives_subtract span.start_le_stop

theorem gives_text (h : span.source = source.toList) :
    Gives source ((extentOf span).text source) span.text := gives_slice h.symm rfl rfl

/-! ## The position of a span -/

theorem lastBreak?_eq_none {cs : List Char} (h : '\n' ∉ cs) : lastBreak? cs = none := by
  induction cs with
  | nil => rfl
  | cons c cs ih =>
    obtain ⟨hc, hcs⟩ := List.ne_and_not_mem_of_not_mem_cons h
    rw [lastBreak?, ih hcs]
    exact if_neg hc.symm

theorem lastBreak?_append (front : List Char) {rest : List Char} (h : '\n' ∉ rest) :
    lastBreak? (front ++ '\n' :: rest) = some (byteLength front) := by
  induction front with
  | nil =>
    rw [List.nil_append, lastBreak?, lastBreak?_eq_none h]
    rfl
  | cons c front ih =>
    rw [List.cons_append, lastBreak?, ih]
    rfl

theorem length_takeWhile_reverse {front rest : List Char} (h : '\n' ∉ rest)
    (hfront : front.getLast?.all (· == '\n') = true) :
    ((front ++ rest).reverse.takeWhile (· != '\n')).length = rest.length := by
  have hrest : ∀ c ∈ rest.reverse, (c != '\n') = true := by
    intro c hc
    have hne : c ≠ '\n' := ne_of_mem_of_not_mem (List.mem_reverse.mp hc) h
    simpa using hne
  have hnil : front.reverse.takeWhile (· != '\n') = [] := by
    cases hreverse : front.reverse with
    | nil => rfl
    | cons c others =>
      rw [List.getLast?_eq_head?_reverse, hreverse] at hfront
      have hc : c = '\n' := by simpa using hfront
      simp [hc]
  rw [List.reverse_append, List.takeWhile_append_of_pos hrest, hnil, List.append_nil,
    List.length_reverse]

/-- Where the last line of a text begins. -/
theorem exists_lastLine (cs : List Char) : ∃ front rest, cs = front ++ rest ∧ '\n' ∉ rest ∧
    front.getLast?.all (· == '\n') = true ∧
    ((lastBreak? cs).map (· + 1)).getD 0 = byteLength front := by
  by_cases hbreak : '\n' ∈ cs
  · obtain ⟨rest, front, hreverse, hrest⟩ :=
      List.eq_append_cons_of_mem (List.mem_reverse.mpr hbreak)
    have hcs : cs = front.reverse ++ '\n' :: rest.reverse := by
      rw [← cs.reverse_reverse, hreverse]
      simp
    have hrest' : '\n' ∉ rest.reverse := fun h ↦ hrest (List.mem_reverse.mp h)
    refine ⟨front.reverse ++ ['\n'], rest.reverse, by simp [hcs], hrest', by simp, ?_⟩
    rw [hcs, lastBreak?_append _ hrest', byteLength_append]
    rfl
  · refine ⟨[], cs, rfl, hbreak, rfl, ?_⟩
    rw [lastBreak?_eq_none hbreak]
    rfl

theorem length_le_byteLength (cs : List Char) : cs.length ≤ byteLength cs := by
  induction cs with
  | nil => exact Nat.le_refl 0
  | cons c cs ih =>
    have hpos := c.utf8Size_pos
    rw [List.length_cons, byteLength_cons]
    omega

theorem gives_lineStart {cs : List Char} {offset : Nat}
    (h : ((lastBreak? cs).map (· + 1)).getD 0 = offset) (hroom : offset < wordLimit) :
    Gives source (lineStart cs) offset := by
  rw [lineStart]
  cases hbreak : lastBreak? cs with
  | none =>
    rw [hbreak] at h
    rw [← h]
    exact gives_pure 0
  | some last =>
    rw [hbreak] at h
    have hlast : last + 1 = offset := h
    rw [← hlast] at hroom ⊢
    exact gives_add hroom

theorem gives_position (h : span.source = source.toList) (hroom : span.start + 1 < wordLimit) :
    Gives source ((extentOf span).position source) (span.line, span.column) := by
  obtain ⟨before, content, after⟩ := span
  obtain ⟨front, rest, hlines, hrest, hfront, hlineStart⟩ := exists_lastLine before
  have hbytes : byteLength before = byteLength front + byteLength rest := by
    rw [hlines, byteLength_append]
  have hstart : byteLength before + 1 < wordLimit := hroom
  have hbreaks : before.count '\n' ≤ byteLength before :=
    List.count_le_length.trans (length_le_byteLength before)
  have hcolumn : Span.column ⟨before, content, after⟩ = rest.length + 1 := by
    rw [Span.column, hlines, length_takeWhile_reverse hrest hfront]
  have hline : Span.line ⟨before, content, after⟩ = before.count '\n' + 1 := rfl
  have hsplit : source.toList = [] ++ before ++ (content ++ after) := by
    simpa [Span.source] using h.symm
  have hcut : Gives source (slice source 0 (byteLength before)) (String.ofList before) :=
    gives_slice hsplit rfl (Nat.zero_add _)
  have hrestCut : Gives source (slice (String.ofList before) (byteLength front)
      (String.ofList before).utf8ByteSize) (String.ofList rest) := by
    have hbefore : (String.ofList before).toList = front ++ rest ++ [] := by
      rw [String.toList_ofList, hlines, List.append_nil]
    rw [utf8ByteSize_ofList]
    exact gives_slice hbefore rfl hbytes.symm
  have hlength := length_le_byteLength rest
  rw [hcolumn, hline]
  refine hcut.bind ?_
  rw [String.toList_ofList]
  refine (gives_add (by omega)).bind ((gives_lineStart hlineStart (by omega)).bind ?_)
  refine hrestCut.bind ?_
  rw [String.toList_ofList]
  exact (gives_add (by omega)).bind (gives_pure _)

end SpecWording.Offsets
