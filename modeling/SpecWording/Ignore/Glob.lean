import SpecWording.Text.Scanner

/-!
# Globs of ignore files

These globs describe paths below a directory, byte by byte of their UTF-8 form. A star and a question
mark stay within one component, and two stars that are a whole component stand for any number of
components. Sets in brackets, alternatives in braces and escapes by a backslash are known as well.
-/

namespace SpecWording.Ignore

/-- Bytes between two, both included. -/
structure ByteSpan where
  first : UInt8
  last : UInt8
  deriving DecidableEq, Repr

inductive Token where
  | byte (b : UInt8)
  | anyByte
  | anyInComponent
  /-- Two stars at the front, with the separator behind them. -/
  | anyFront
  /-- A separator and two stars at the end. -/
  | anyBack
  /-- Two stars between two separators. -/
  | anyBetween
  | set (negated : Bool) (spans : List ByteSpan)
  | alternatives (branches : List (List Token))
  deriving Repr

/-- Why a text is no glob. -/
inductive GlobError where
  | unclosedSet
  | invalidRange (first last : Char)
  | unopenedAlternatives
  | unclosedAlternatives
  | danglingEscape
  deriving DecidableEq, Repr

namespace GlobError

def message : GlobError → String
  | unclosedSet => "unclosed character class; missing ']'"
  | invalidRange first last => s!"invalid range; '{first}' > '{last}'"
  | unopenedAlternatives =>
    "unopened alternate group; missing '\x7b' (maybe escape '\x7d' with '[\x7d]'?)"
  | unclosedAlternatives =>
    "unclosed alternate group; missing '\x7d' (maybe escape '\x7b' with '[\x7b]'?)"
  | danglingEscape => "dangling '\\'"

end GlobError

def separator : UInt8 := 47

def isSeparator (b : UInt8) : Bool := b == separator

/-! ## What a token stands for -/

namespace Token

def inSpans (spans : List ByteSpan) (b : UInt8) : Bool :=
  spans.any fun span => span.first ≤ b && b ≤ span.last

mutual

/-- What may be left of a path after what a token stands for. -/
def remainders : Token → List UInt8 → List (List UInt8)
  | byte b, path => Text.restAfter (· == b) path
  | anyByte, path => Text.restAfter (!isSeparator ·) path
  | anyInComponent, path => Text.suffixesWhile (!isSeparator ·) path
  | anyFront, path => path :: Text.suffixesAfter isSeparator path
  | anyBack, path => (Text.restAfter isSeparator path).flatMap Text.suffixes
  | anyBetween, path =>
    (Text.restAfter isSeparator path).flatMap fun rest =>
      rest :: Text.suffixesAfter isSeparator rest
  | set negated spans, path => Text.restAfter (fun b => inSpans spans b != negated) path
  | alternatives branches, path =>
    if branches.all (·.isEmpty) then [path] else remaindersOfAny branches path

def remaindersOfAll : List Token → List (List UInt8) → List (List UInt8)
  | [], left => left
  | token :: tokens, left => remaindersOfAll tokens (Text.continueWith token.remainders left)

/-- An empty branch counts for nothing unless there is no other. -/
def remaindersOfAny : List (List Token) → List UInt8 → List (List UInt8)
  | [], _ => []
  | branch :: branches, path =>
    (if branch.isEmpty then [] else remaindersOfAll branch [path]) ++ remaindersOfAny branches path

end

end Token

/-! ## Reading a glob -/

/-- What has been read of a glob. -/
structure GlobReader where
  /-- The tokens of every open branch, the latest first, the tokens in reverse. -/
  branches : List (List Token) := [[]]
  /-- For every open brace, the number of branches below it, the latest first. -/
  opened : List Nat := []
  deriving Repr

namespace GlobReader

def push (reader : GlobReader) (token : Token) : GlobReader :=
  match reader.branches with
  | branch :: others => { reader with branches := (token :: branch) :: others }
  | [] => { reader with branches := [[token]] }

def pushChar (reader : GlobReader) (c : Char) : GlobReader :=
  (String.utf8EncodeChar c).foldl (fun reader b => reader.push (.byte b)) reader

def pushAll (reader : GlobReader) (tokens : List Token) : GlobReader := tokens.foldl push reader

/-- Takes back the latest token of the innermost branch. -/
def pop (reader : GlobReader) : Option Token × GlobReader :=
  match reader.branches with
  | (token :: branch) :: others => (some token, { reader with branches := branch :: others })
  | _ => (none, reader)

def atStart (reader : GlobReader) : Bool := (reader.branches.head?.map (·.isEmpty)).getD true

def openBrace (reader : GlobReader) : GlobReader :=
  { branches := [] :: reader.branches, opened := reader.branches.length :: reader.opened }

def closeBrace (reader : GlobReader) : Except GlobError GlobReader :=
  match reader.opened with
  | [] => .error .unopenedAlternatives
  | below :: opened =>
    let count := reader.branches.length - below
    let branches := ((reader.branches.take count).map List.reverse).reverse
    .ok ({ branches := reader.branches.drop count, opened := opened : GlobReader }.push
      (.alternatives branches))

def comma (reader : GlobReader) : GlobReader :=
  if reader.opened.isEmpty then reader.pushChar ','
  else { reader with branches := [] :: reader.branches }

/-- Whether a glob or one of its branches begins here, given the character before. -/
def beginsComponent (reader : GlobReader) (previous : Option Char) : Bool :=
  previous == some '/' ||
    (reader.branches.length > 1 && (previous == some ',' || previous == some '\x7b'))

/-- Whether a branch may end before a character. -/
def endsBranch (reader : GlobReader) (c : Char) : Bool :=
  (c == ',' || c == '\x7d') && reader.branches.length ≥ 2

/-- Puts two stars that are a whole component in the place of the separator before them. -/
def replaceSeparator (reader : GlobReader) (token : Token) : GlobReader :=
  match reader.pop with
  | (some .anyFront, below) => below.push .anyFront
  | (some .anyBack, below) => below.push .anyBack
  | (_, below) => below.push token

/-- Reads two stars; the result says whether the separator behind them belongs to them. -/
def twoStars (reader : GlobReader) (previous next : Option Char) : GlobReader × Bool :=
  let plain := reader.pushAll [.anyInComponent, .anyInComponent]
  let separated := next == some '/'
  if reader.atStart then
    if next.isNone || separated then (reader.push .anyFront, separated) else (plain, false)
  else if !reader.beginsComponent previous then (plain, false)
  else if separated then (reader.replaceSeparator .anyBetween, true)
  else if next.all reader.endsBranch then (reader.replaceSeparator .anyBack, false)
  else (plain, false)

end GlobReader

/-- A set that is being read: its ranges, the latest first, and whether a hyphen waits for its end. -/
structure SetReader where
  ranges : List (Char × Char) := []
  inRange : Bool := false
  deriving Repr

namespace SetReader

def add (reader : SetReader) (c : Char) : Except GlobError SetReader :=
  match reader.inRange, reader.ranges with
  | true, (first, _) :: others =>
    if c < first then .error (.invalidRange first c) else .ok ⟨(first, c) :: others, false⟩
  | _, ranges => .ok ⟨(c, c) :: ranges, false⟩

/-- A closing bracket closes the set unless it is the first character in it. -/
def read (reader : SetReader) (first : Bool) : List Char →
    Except GlobError (List (Char × Char) × List Char)
  | [] => .error .unclosedSet
  | c :: rest =>
    if c == ']' && !first then
      .ok ((if reader.inRange then ('-', '-') :: reader.ranges else reader.ranges).reverse, rest)
    else if c == '-' && !first && !reader.inRange then
      read { reader with inRange := true } false rest
    else
      match reader.add c with
      | .ok reader => read reader false rest
      | .error error => .error error

end SetReader

/-- The spans of bytes of a range: only the last byte of its first character and the first byte of
its last one are its ends, and every other byte of the two stands for itself. -/
def spansOf : Char × Char → List ByteSpan
  | (first, last) =>
    let single (b : UInt8) : ByteSpan := ⟨b, b⟩
    let front := String.utf8EncodeChar first
    let back := String.utf8EncodeChar last
    if first = last then front.map single
    else front.dropLast.map single ++
      (match front.getLast?, back.head? with
        | some low, some high => [⟨low, high⟩]
        | _, _ => []) ++ back.tail.map single

/-- A set after its opening bracket, and what follows the closing one. -/
def readSet (cs : List Char) : Except GlobError (Token × List Char) :=
  let negated := cs.head? == some '!' || cs.head? == some '^'
  match SetReader.read {} true (if negated then cs.tail else cs) with
  | .ok (ranges, rest) => .ok (.set negated (ranges.flatMap spansOf), rest)
  | .error error => .error error

theorem SetReader.length_read_lt {reader : SetReader} {first : Bool} {cs rest : List Char}
    {ranges : List (Char × Char)} (h : SetReader.read reader first cs = .ok (ranges, rest)) :
    rest.length < cs.length := by
  induction cs generalizing reader first with
  | nil => simp [SetReader.read] at h
  | cons c cs ih =>
    rw [SetReader.read] at h
    split at h
    · cases h; simp
    · split at h
      · have := ih h; simp only [List.length_cons]; omega
      · split at h
        · have := ih h; simp only [List.length_cons]; omega
        · cases h

theorem length_readSet_lt {cs rest : List Char} {token : Token}
    (h : readSet cs = .ok (token, rest)) : rest.length < cs.length := by
  unfold readSet at h
  simp only at h
  split at h
  · next heq =>
    have := SetReader.length_read_lt heq
    cases h
    split at this
    · simp only [List.length_tail] at this; omega
    · exact this
  · cases h

/-- Reads a glob; `previous` is the character before. -/
def readGlob (reader : GlobReader) (previous : Option Char) : List Char →
    Except GlobError GlobReader
  | [] => .ok reader
  | '?' :: rest => readGlob (reader.push .anyByte) (some '?') rest
  | '*' :: '*' :: rest =>
    match reader.twoStars previous rest.head? with
    | (reader, true) => readGlob reader (some '/') rest.tail
    | (reader, false) => readGlob reader (some '*') rest
  | '*' :: rest => readGlob (reader.push .anyInComponent) (some '*') rest
  | '[' :: rest =>
    match h : readSet rest with
    | .ok (token, after) =>
      have := length_readSet_lt h
      readGlob (reader.push token) (some ']') after
    | .error error => .error error
  | '\x7b' :: rest => readGlob reader.openBrace (some '\x7b') rest
  | '\x7d' :: rest =>
    match reader.closeBrace with
    | .ok reader => readGlob reader (some '\x7d') rest
    | .error error => .error error
  | ',' :: rest => readGlob reader.comma (some ',') rest
  | '\\' :: c :: rest => readGlob (reader.pushChar c) (some c) rest
  | '\\' :: [] => .error .danglingEscape
  | c :: rest => readGlob (reader.pushChar c) (some c) rest
termination_by cs => cs.length

/-- The tokens of a glob. -/
def parseGlob (cs : List Char) : Except GlobError (List Token) := do
  match (← readGlob {} none cs).branches with
  | [branch] => .ok branch.reverse
  | _ => .error .unclosedAlternatives

/-- Whether a glob stands for a path; two stars alone stand for every path. -/
def acceptsPath (tokens : List Token) (path : List UInt8) : Bool :=
  match tokens with
  | [.anyFront] => true
  | _ => (Token.remaindersOfAll tokens [path]).contains []

end SpecWording.Ignore
