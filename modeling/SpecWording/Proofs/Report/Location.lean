import SpecWording.Proofs.Offsets.Check
import SpecWording.Proofs.Text.Position

/-!
# Locations tell spans apart

A location is made for people and for tools. Its offset and length are the span again, and its line
and column are as good as the offset: in one text they order the starts of spans in the same way and
are the same only where the starts are.
-/

namespace SpecWording.Location

open Offsets (Gives extentOf fits_extentOf gives_locate? gives_located locate? located wordLimit)
open Text (Span)

/-- A location leads back to its span, and of two spans of one text the one that starts first has the
earlier line, or on the same line the earlier column. Counting lines and characters by offsets, and
looking the span up by them, comes to the same in any text that a machine word can measure. -/
theorem ofSpan_identifies (path : Path) {source : String} {first second : Span}
    (hfirst : first.source = source.toList) (hsecond : second.source = source.toList) :
    (ofSpan path first).span? source = some first ∧
    (first.start < second.start ↔ (ofSpan path first).line < (ofSpan path second).line ∨
      (ofSpan path first).line = (ofSpan path second).line ∧
        (ofSpan path first).column < (ofSpan path second).column) ∧
    (first.start = second.start ↔ (ofSpan path first).line = (ofSpan path second).line ∧
      (ofSpan path first).column = (ofSpan path second).column) ∧
    (source.utf8ByteSize + 1 < wordLimit →
      Gives source (located ⟨path, source⟩ (extentOf first)) (ofSpan path first) ∧
      Gives source (locate? source (ofSpan path first).offset (ofSpan path first).length)
        (some (extentOf first))) := by
  have hsource : first.source = second.source := hfirst.trans hsecond.symm
  have hspan : (ofSpan path first).span? source = some first := Span.ofRange?_start_stop hfirst
  refine ⟨hspan, Span.start_lt_iff hsource, Span.start_eq_iff hsource, fun hsize ↦ ?_⟩
  have hstop : first.stop ≤ source.utf8ByteSize := (fits_extentOf hfirst).within
  constructor
  · let file : SourceFile := ⟨path, source⟩
    have hfile : first.source = file.content.toList := hfirst
    have hroom : first.start + 1 < wordLimit := by
      calc
        first.start + 1 ≤ first.stop + 1 := Nat.succ_le_succ first.start_le_stop
        _ ≤ source.utf8ByteSize + 1 := Nat.succ_le_succ hstop
        _ < wordLimit := hsize
    exact gives_located hfile hroom
  · have hends : (ofSpan path first).offset + (ofSpan path first).length < wordLimit := by
      calc
        first.stop ≤ source.utf8ByteSize := hstop
        _ < wordLimit := Nat.lt_of_succ_lt hsize
    have hfound : Span.ofRange? source (ofSpan path first).offset
        ((ofSpan path first).offset + (ofSpan path first).length) = some first := hspan
    have hgives := @gives_locate? source _ _ hends
    rw [hfound] at hgives
    exact hgives

/-- Two kinds of line ends, and characters of two and of three bytes. -/
def mixedText : String := "é\r\n\n↯x"

/-- The line that is empty. -/
def emptyLine : Span := ⟨"é\r\n".toList, [], "\n↯x".toList⟩

def lastLetter : Span := ⟨"é\r\n\n↯".toList, ['x'], []⟩

theorem ofSpan_identifies_mixed :
    emptyLine.source = mixedText.toList ∧ lastLetter.source = mixedText.toList ∧
      mixedText.utf8ByteSize + 1 < wordLimit ∧
      ofSpan ⟨"a.rb"⟩ emptyLine = ⟨⟨"a.rb"⟩, 2, 1, 4, 0⟩ ∧
      ofSpan ⟨"a.rb"⟩ lastLetter = ⟨⟨"a.rb"⟩, 3, 2, 8, 1⟩ ∧
      (ofSpan ⟨"a.rb"⟩ lastLetter).span? mixedText = some lastLetter ∧
      emptyLine.start < lastLetter.start ∧ emptyLine.start ≠ lastLetter.start ∧
      Gives mixedText (located ⟨⟨"a.rb"⟩, mixedText⟩ (extentOf lastLetter))
        ⟨⟨"a.rb"⟩, 3, 2, 8, 1⟩ := by
  have hempty : emptyLine.source = mixedText.toList := by decide
  have hlast : lastLetter.source = mixedText.toList := by decide
  have hsize : mixedText.utf8ByteSize + 1 < wordLimit := by decide
  obtain ⟨-, hlt, heq, -⟩ := ofSpan_identifies ⟨"a.rb"⟩ hempty hlast
  obtain ⟨hspan, -, -, hgives⟩ := ofSpan_identifies ⟨"a.rb"⟩ hlast hempty
  exact ⟨hempty, hlast, hsize, by decide, by decide, hspan, hlt.mpr (by decide),
    fun h ↦ absurd (heq.mp h) (by decide), (hgives hsize).1⟩

end SpecWording.Location
