import SpecWording.Text.Utf8

/-!
# Spans of a text

A span is a stretch of a text, kept together with what stands before and after it. Such a value
cannot lie outside its text or end inside a character, so only the two ways to make one from byte
offsets can fail: `Span.ofRange?`, which takes any pair of offsets, and `Span.inner?`, which also
drops the character at each end. Their lemmas say exactly when they succeed.
-/

namespace SpecWording.Text

/-- A stretch of a text with the characters around it. -/
structure Span where
  before : List Char
  content : List Char
  after : List Char
  deriving DecidableEq, Repr

namespace Span

/-- The text that the span is a part of. -/
def source (span : Span) : List Char := span.before ++ span.content ++ span.after

def start (span : Span) : Nat := byteLength span.before

def length (span : Span) : Nat := byteLength span.content

def stop (span : Span) : Nat := span.start + span.length

def text (span : Span) : String := String.ofList span.content

/-- The line of the span's first character: lines are counted from one and end at a line feed. -/
def line (span : Span) : Nat := span.before.count '\n' + 1

/-- The characters before the span on its first line, counted from one. -/
def column (span : Span) : Nat := (span.before.reverse.takeWhile (· != '\n')).length + 1

/-- The span between two byte offsets, if they are in order and each ends at a character. -/
def ofRange? (source : String) (start stop : Nat) : Option Span :=
  if start ≤ stop then do
    let (before, rest) ← splitAt? start source.toList
    let (content, after) ← splitAt? (stop - start) rest
    some ⟨before, content, after⟩
  else none

/-- The span between two byte offsets without its first and its last character. -/
def inner? (source : String) (start stop : Nat) : Option Span := do
  let outer ← ofRange? source start stop
  match outer.content with
  | first :: second :: rest =>
    let tail := second :: rest
    some ⟨outer.before ++ [first], tail.dropLast, tail.getLast (by simp [tail]) :: outer.after⟩
  | _ => none

theorem start_le_stop (span : Span) : span.start ≤ span.stop := by simp [stop]

theorem stop_le_byteLength_source (span : Span) : span.stop ≤ byteLength span.source := by
  simp [stop, start, length, source]

theorem ofRange?_eq_some_iff {source : String} {start stop : Nat} {span : Span} :
    ofRange? source start stop = some span ↔
      span.source = source.toList ∧ span.start = start ∧ span.stop = stop := by
  obtain ⟨before, content, after⟩ := span
  unfold ofRange?
  split
  · next hle =>
    simp only [Option.bind_eq_bind, Option.bind_eq_some_iff, Prod.exists, Option.some.injEq,
      Span.mk.injEq, splitAt?_eq_some_iff]
    constructor
    · rintro ⟨front, rest, ⟨hsource, hstart⟩, middle, back, ⟨rfl, hlen⟩, rfl, rfl, rfl⟩
      refine ⟨by simp [Span.source, hsource], hstart, ?_⟩
      simp only [Span.stop, Span.start, Span.length]
      omega
    · rintro ⟨hsource, hstart, hstop⟩
      simp only [Span.stop, Span.start, Span.length, Span.source] at hsource hstart hstop
      exact ⟨before, content ++ after, ⟨by simp [← hsource], hstart⟩, content, after,
        ⟨rfl, by omega⟩, rfl, rfl, rfl⟩
  · next hlt =>
    simp only [reduceCtorEq, false_iff]
    rintro ⟨-, rfl, rfl⟩
    exact hlt (start_le_stop _)

end Span

end SpecWording.Text
