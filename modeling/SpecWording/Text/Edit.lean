import SpecWording.Text.Span

/-!
# Editing a text

Edits name stretches of one text by offset and length. They are judged in the order of their
offsets, then lengths, then places in the list: an edit that is no stretch of the text is outside,
one that begins before the end of the last applied edit overlaps, and every other one is applied.
The verdicts are computed first and the new text is put together from the applied edits.
-/

namespace SpecWording.Text

/-- A new text for the `length` bytes from `offset` on. -/
structure Edit where
  offset : Nat
  length : Nat
  newText : String
  deriving DecidableEq, Repr, Inhabited

inductive Verdict where
  | applied
  | outside
  | overlapping
  deriving DecidableEq, Repr

namespace Edit

def span? (edit : Edit) (source : String) : Option Span :=
  Span.ofRange? source edit.offset (edit.offset + edit.length)

/-- Whether the edit with its index is judged before the other, or is the same. -/
def comesFirst (a b : Edit × Nat) : Bool :=
  a.1.offset < b.1.offset || (a.1.offset == b.1.offset &&
    (a.1.length < b.1.length || (a.1.length == b.1.length && a.2 ≤ b.2)))

/-- The edits with their indices, in the order in which they are judged. -/
def inOrder (edits : List Edit) : List (Edit × Nat) := edits.zipIdx.mergeSort comesFirst

/-- The verdict on an edit when the first `position` characters are settled. -/
def judge (source : String) (position : Nat) (edit : Edit) : Verdict :=
  match edit.span? source with
  | none => .outside
  | some span => if position ≤ span.before.length then .applied else .overlapping

end Edit

/-- An edit with its index in the list and what became of it. -/
structure Judgement where
  edit : Edit
  index : Nat
  verdict : Verdict
  deriving DecidableEq, Repr

namespace Judgement

def isApplied (judgement : Judgement) : Bool := judgement.verdict == .applied

end Judgement

namespace Edit

/-- The number of characters that are settled after a verdict. -/
def settled (source : String) (position : Nat) (edit : Edit) : Verdict → Nat
  | .applied =>
    match edit.span? source with
    | some span => span.before.length + span.content.length
    | none => position
  | _ => position

/-- Judges edits one after another. -/
def judgeAll (source : String) (position : Nat) : List (Edit × Nat) → List Judgement
  | [] => []
  | (edit, index) :: others =>
    let verdict := judge source position edit
    ⟨edit, index, verdict⟩ :: judgeAll source (settled source position edit verdict) others

/-- The text from a position on, with every stretch replaced; the stretches are in order. -/
def splice (source : List Char) (position : Nat) : List (Span × String) → List Char
  | [] => source.drop position
  | (span, newText) :: others =>
    span.before.drop position ++ newText.toList ++
      splice source (span.before.length + span.content.length) others

/-- The stretches that applied edits replace, with the new texts. -/
def replaced (source : String) (judgements : List Judgement) : List (Span × String) :=
  (judgements.filter (·.isApplied)).filterMap fun judgement =>
    (judgement.edit.span? source).map (·, judgement.edit.newText)

end Edit

/-- The text after a list of edits, and the judgements on them in the order of judging. -/
structure Edited where
  text : String
  judgements : List Judgement
  deriving DecidableEq, Repr

namespace Edited

/-- Whether the edit at an index was applied. -/
def appliedAt (edited : Edited) (index : Nat) : Bool :=
  edited.judgements.any fun judgement => judgement.index == index && judgement.isApplied

def appliedCount (edited : Edited) : Nat := edited.judgements.countP (·.isApplied)

/-- For every edit, in the order of the list, whether it was applied. -/
def flags (edited : Edited) : List Bool :=
  (List.range edited.judgements.length).map edited.appliedAt

end Edited

/-- Applies a list of edits to a text. -/
def applyEdits (source : String) (edits : List Edit) : Edited :=
  let judgements := Edit.judgeAll source 0 (Edit.inOrder edits)
  ⟨String.ofList (Edit.splice source.toList 0 (Edit.replaced source judgements)), judgements⟩

end SpecWording.Text
