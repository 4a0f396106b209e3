import SpecWording.Text.Span

/-!
# Cutting one text at many offsets

`Cuts` lists what follows each byte offset of a text, so that many stretches can be taken from a
long text without going through all of it each time. `text?_ofText` says that what is taken is what
a span of the text would have taken.
-/

namespace SpecWording.Text

/-- What follows each byte of a text, and nothing for an offset inside a character. -/
def remainders : List Char → List (Option (List Char))
  | [] => [some []]
  | c :: cs => some (c :: cs) :: (List.replicate (c.utf8Size - 1) none ++ remainders cs)

theorem getElem?_remainders (cs : List Char) (n : Nat) :
    (remainders cs)[n]?.join = (splitAt? n cs).map (·.2) := by
  induction cs generalizing n with
  | nil => cases n <;> simp [remainders, splitAt?]
  | cons c cs ih =>
    have hpos := c.utf8Size_pos
    cases n with
    | zero => simp [remainders, splitAt?]
    | succ n =>
      rw [remainders, List.getElem?_cons_succ, splitAt?]
      by_cases hle : c.utf8Size ≤ n + 1
      · rw [List.getElem?_append_right (by simp; omega), if_pos hle]
        have hrest : n - (c.utf8Size - 1) = n + 1 - c.utf8Size := by omega
        simp [hrest, ih, Option.map_map, Function.comp_def]
      · rw [List.getElem?_append_left (by simp; omega), if_neg hle]
        simp [show n < c.utf8Size - 1 by omega]

/-- What follows each byte offset of one text. -/
abbrev Cuts := Array (Option (List Char))

namespace Cuts

def ofText (source : String) : Cuts := (remainders source.toList).toArray

/-- The character at an offset. -/
def charAt? (cuts : Cuts) (offset : Nat) : Option Char := cuts[offset]?.join.bind (·.head?)

/-- The text between two offsets, if they are in order and each ends at a character. -/
def text? (cuts : Cuts) (start stop : Nat) : Option String :=
  if start ≤ stop then do
    let rest ← cuts[start]?.join
    let (content, _) ← splitAt? (stop - start) rest
    some (String.ofList content)
  else none

theorem text?_ofText (source : String) (start stop : Nat) :
    (ofText source).text? start stop = (Span.ofRange? source start stop).map Span.text := by
  unfold text? Span.ofRange? ofText
  split
  · rw [List.getElem?_toArray, getElem?_remainders]
    cases splitAt? start source.toList with
    | none => rfl
    | some cut =>
      obtain ⟨before, rest⟩ := cut
      cases h : splitAt? (stop - start) rest <;> simp [h, Span.text]
  · rfl

theorem charAt?_ofText (source : String) (offset : Nat) :
    (ofText source).charAt? offset = (splitAt? offset source.toList).bind (·.2.head?) := by
  rw [charAt?, ofText, List.getElem?_toArray, getElem?_remainders]
  cases splitAt? offset source.toList <;> rfl

end Cuts

end SpecWording.Text
