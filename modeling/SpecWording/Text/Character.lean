/-!
# Kinds of characters

Which characters are whitespace, and how many columns of a screen a character takes: characters of
East Asian scripts and most pictures take two, marks that combine with the character before them
take none, and a tab goes on to the next multiple of four. A sequence that sets colours takes no
column at all.
-/

namespace SpecWording.Text

/-- Characters from the first to the last one, ends included. -/
structure CodeRange where
  first : Nat
  last : Nat
  deriving DecidableEq, Repr

def inRanges (ranges : List CodeRange) (c : Char) : Bool :=
  ranges.any fun range => range.first ≤ c.toNat && c.toNat ≤ range.last

/-! ## Whitespace -/

/-- The characters that Unicode counts as whitespace, line breaks and wide spaces included. -/
def isWhitespace (c : Char) : Bool :=
  ('\t' ≤ c && c ≤ '\r') || c == ' ' || c == '\u0085' || c == '\u00a0' || c == '\u1680' ||
    ('\u2000' ≤ c && c ≤ '\u200a') || c == '\u2028' || c == '\u2029' || c == '\u202f' ||
    c == '\u205f' || c == '\u3000'

def trimStart (cs : List Char) : List Char := cs.dropWhile isWhitespace

def trimEnd (cs : List Char) : List Char := (cs.reverse.dropWhile isWhitespace).reverse

def trim (cs : List Char) : List Char := trimEnd (trimStart cs)

/-! ## Columns on a screen -/

/-- The characters that take two columns. -/
def wideRanges : List CodeRange :=
  [⟨0x1100, 0x115f⟩, ⟨0x231a, 0x231b⟩, ⟨0x2329, 0x232a⟩, ⟨0x23e9, 0x23ec⟩, ⟨0x23f0, 0x23f0⟩,
    ⟨0x23f3, 0x23f3⟩, ⟨0x25fd, 0x25fe⟩, ⟨0x2614, 0x2615⟩, ⟨0x2648, 0x2653⟩, ⟨0x267f, 0x267f⟩,
    ⟨0x2693, 0x2693⟩, ⟨0x26a1, 0x26a1⟩, ⟨0x26aa, 0x26ab⟩, ⟨0x26bd, 0x26be⟩, ⟨0x26c4, 0x26c5⟩,
    ⟨0x26ce, 0x26ce⟩, ⟨0x26d4, 0x26d4⟩, ⟨0x26ea, 0x26ea⟩, ⟨0x26f2, 0x26f3⟩, ⟨0x26f5, 0x26f5⟩,
    ⟨0x26fa, 0x26fa⟩, ⟨0x26fd, 0x26fd⟩, ⟨0x2705, 0x2705⟩, ⟨0x270a, 0x270b⟩, ⟨0x2728, 0x2728⟩,
    ⟨0x274c, 0x274c⟩, ⟨0x274e, 0x274e⟩, ⟨0x2753, 0x2755⟩, ⟨0x2757, 0x2757⟩, ⟨0x2795, 0x2797⟩,
    ⟨0x27b0, 0x27b0⟩, ⟨0x27bf, 0x27bf⟩, ⟨0x2b1b, 0x2b1c⟩, ⟨0x2b50, 0x2b50⟩, ⟨0x2b55, 0x2b55⟩,
    ⟨0x2e80, 0x303e⟩, ⟨0x3041, 0x3247⟩, ⟨0x3250, 0xa4c6⟩, ⟨0xa960, 0xa97c⟩, ⟨0xac00, 0xd7a3⟩,
    ⟨0xf900, 0xfaff⟩, ⟨0xfe10, 0xfe19⟩, ⟨0xfe30, 0xfe6b⟩, ⟨0xff01, 0xff60⟩, ⟨0xffe0, 0xffe6⟩,
    ⟨0x16fe0, 0x18d08⟩, ⟨0x1aff0, 0x1b2fb⟩, ⟨0x1f004, 0x1f004⟩, ⟨0x1f0cf, 0x1f0cf⟩,
    ⟨0x1f18e, 0x1f18e⟩, ⟨0x1f191, 0x1f19a⟩, ⟨0x1f200, 0x1f265⟩, ⟨0x1f300, 0x1f320⟩,
    ⟨0x1f32d, 0x1f335⟩, ⟨0x1f337, 0x1f37c⟩, ⟨0x1f37e, 0x1f393⟩, ⟨0x1f3a0, 0x1f3ca⟩,
    ⟨0x1f3cf, 0x1f3d3⟩, ⟨0x1f3e0, 0x1f3f0⟩, ⟨0x1f3f4, 0x1f3f4⟩, ⟨0x1f3f8, 0x1f43e⟩,
    ⟨0x1f440, 0x1f440⟩, ⟨0x1f442, 0x1f4fc⟩, ⟨0x1f4ff, 0x1f53d⟩, ⟨0x1f54b, 0x1f54e⟩,
    ⟨0x1f550, 0x1f567⟩, ⟨0x1f57a, 0x1f57a⟩, ⟨0x1f595, 0x1f596⟩, ⟨0x1f5a4, 0x1f5a4⟩,
    ⟨0x1f5fb, 0x1f64f⟩, ⟨0x1f680, 0x1f6c5⟩, ⟨0x1f6cc, 0x1f6cc⟩, ⟨0x1f6d0, 0x1f6d2⟩,
    ⟨0x1f6d5, 0x1f6d7⟩, ⟨0x1f6dc, 0x1f6df⟩, ⟨0x1f6eb, 0x1f6ec⟩, ⟨0x1f6f4, 0x1f6fc⟩,
    ⟨0x1f7e0, 0x1f7eb⟩, ⟨0x1f7f0, 0x1f7f0⟩, ⟨0x1f90c, 0x1f93a⟩, ⟨0x1f93c, 0x1f945⟩,
    ⟨0x1f947, 0x1f9ff⟩, ⟨0x1fa70, 0x1faff⟩, ⟨0x20000, 0x2fffd⟩, ⟨0x30000, 0x3fffd⟩]

/-- The characters that take no column. -/
def zeroRanges : List CodeRange :=
  [⟨0x0, 0x1f⟩, ⟨0x7f, 0x9f⟩, ⟨0x300, 0x36f⟩, ⟨0x483, 0x489⟩, ⟨0x591, 0x5bd⟩, ⟨0x5bf, 0x5bf⟩,
    ⟨0x5c1, 0x5c2⟩, ⟨0x5c4, 0x5c5⟩, ⟨0x5c7, 0x5c7⟩, ⟨0x610, 0x61a⟩, ⟨0x64b, 0x65f⟩,
    ⟨0x670, 0x670⟩, ⟨0x6d6, 0x6dc⟩, ⟨0x6df, 0x6e4⟩, ⟨0x6e7, 0x6e8⟩, ⟨0x6ea, 0x6ed⟩,
    ⟨0x900, 0x902⟩, ⟨0x93a, 0x93a⟩, ⟨0x93c, 0x93c⟩, ⟨0x941, 0x948⟩, ⟨0x94d, 0x94d⟩,
    ⟨0xe31, 0xe31⟩, ⟨0xe34, 0xe3a⟩, ⟨0xe47, 0xe4e⟩, ⟨0x1160, 0x11ff⟩, ⟨0x1ab0, 0x1ace⟩,
    ⟨0x1dc0, 0x1dff⟩, ⟨0x200b, 0x200f⟩, ⟨0x202a, 0x202e⟩, ⟨0x2060, 0x206f⟩, ⟨0x20d0, 0x20f0⟩,
    ⟨0x302a, 0x302d⟩, ⟨0x3099, 0x309a⟩, ⟨0xfe00, 0xfe0f⟩, ⟨0xfe20, 0xfe2f⟩, ⟨0xfeff, 0xfeff⟩,
    ⟨0xe0001, 0xe007f⟩, ⟨0xe0100, 0xe01ef⟩]

/-- The columns of a character that is no tab. -/
def columnsOf (c : Char) : Nat :=
  if inRanges zeroRanges c then 0 else if inRanges wideRanges c then 2 else 1

/-- The columns from one tab stop to the next. -/
def tabWidth : Nat := 4

/-- The columns of each character of a line from some column on, perhaps within a colour sequence. -/
def columnsFrom (colouring : Bool) (column : Nat) : List Char → List (Char × Nat)
  | [] => []
  | c :: cs =>
    if colouring then (c, 0) :: columnsFrom (c != 'm') column cs
    else if c == '\x1b' then (c, 0) :: columnsFrom true column cs
    else
      let columns := if c == '\t' then tabWidth - column % tabWidth else columnsOf c
      (c, columns) :: columnsFrom false (column + columns) cs

/-- The columns of a line. -/
def columns (line : List Char) : Nat :=
  (columnsFrom false 0 line).foldl (fun total (_, columns) => total + columns) 0

/-- A line with blanks in place of its tabs. -/
def expandTabs (line : List Char) : List Char :=
  (columnsFrom false 0 line).flatMap fun (c, columns) =>
    if c == '\t' then List.replicate columns ' ' else [c]

end SpecWording.Text
