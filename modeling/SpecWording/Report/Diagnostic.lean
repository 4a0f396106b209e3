import SpecWording.Report.Violation
import SpecWording.Text.Character

/-!
# Violations with their source

A diagnostic says what is wrong, where, and what would help. With the text at hand it is drawn: the
line with the span and one line on either side, each with its number, and a mark under the span. A
span over several lines is marked up to the end of its first line.
-/

namespace SpecWording

open Text (Span)

structure Diagnostic where
  message : String
  help : Option String
  /-- What is written at the mark. -/
  label : String
  offset : Nat
  length : Nat
  deriving DecidableEq, Repr

namespace Violation

def diagnostic (violation : Violation) : Diagnostic where
  message := s!"[{violation.code}] {violation.message}"
  help := violation.suggestion.map (·.message)
  label := violation.rule
  offset := violation.location.offset
  length := violation.location.length

end Violation

namespace Diagnostic

/-- Whether a line ends with a character: a carriage return before a line feed does not count. -/
def breaksAt (c : Char) (cs : List Char) : Bool :=
  c == '\n' || (c == '\r' && cs.head? != some '\n')

/-- The lines of a text with their breaks; what follows the last break is a line too. -/
def brokenLines : List Char → List (List Char)
  | [] => [[]]
  | c :: cs =>
    match brokenLines cs with
    | first :: others =>
      if breaksAt c cs then [c] :: first :: others else (c :: first) :: others
    | [] => [[c]]

/-- A line without the carriage return at its end. -/
def withoutReturn (line : List Char) : List Char :=
  if line.getLast? == some '\r' then line.dropLast else line

/-- The lines that are shown of a text: without their breaks, and none behind the last break. -/
def shownLines (cs : List Char) : List (List Char) :=
  let lines := Text.fields '\n' cs
  let whole := lines.dropLast.map withoutReturn
  match lines.getLast? with
  | none | some [] => whole
  | some rest => whole ++ [rest]

/-- What is shown of a text around a span. -/
structure Excerpt where
  /-- Line and column of the span; the column counts bytes. -/
  line : Nat
  column : Nat
  /-- The number of the first line that is shown. -/
  first : Nat
  lines : List (List Char)
  /-- The index of the line with the mark. -/
  marked : Nat
  /-- The text in front of the mark on that line, and the text that is marked. -/
  indent : List Char
  mark : List Char

def excerpt (span : Span) : Excerpt :=
  let before := brokenLines span.before
  let start := before.getLast?.getD []
  let front := (before.dropLast.getLast?.getD []) ++ start
  let back := ((brokenLines span.after).take 2).flatten
  { line := before.length
    column := Text.byteLength start + 1
    first := max 1 (before.length - 1)
    lines := shownLines (front ++ span.content ++ back)
    marked := front.count '\n'
    indent := (Text.fields '\n' front).getLast?.getD []
    mark := span.content.takeWhile (· != '\n') }

def blanks (count : Nat) : String := String.ofList (List.replicate count ' ')

def bar (count : Nat) : String := String.ofList (List.replicate count '─')

/-- A number in front of its line, in as many columns as the largest one has. -/
def numbered (width : Nat) (number : Nat) (line : List Char) : String :=
  let digits := toString number
  s!" {blanks (width - digits.length)}{digits} │ {String.ofList (Text.expandTabs line)}\n"

/-- The mark with the label under its middle. -/
def marking (width : Nat) (excerpt : Excerpt) (label : String) : String :=
  let start := Text.columns excerpt.indent
  let stop := max (Text.columns (excerpt.indent ++ excerpt.mark)) (start + 1)
  let middle := (start + stop) / 2
  s!" {blanks width} · {blanks start}{bar (middle - start)}┬{bar (stop - middle - 1)}\n" ++
  s!" {blanks width} · {blanks middle}╰── {label}\n"

def drawnLines (width : Nat) (excerpt : Excerpt) (label : String) : List String :=
  excerpt.lines.mapIdx fun index line =>
    numbered width (excerpt.first + index) line ++
      if index = excerpt.marked then marking width excerpt label else ""

/-- The drawing of a diagnostic on a span of a file. -/
def render (diagnostic : Diagnostic) (file : Path) (span : Span) : String :=
  let excerpt := excerpt span
  let width := (toString (excerpt.first + excerpt.lines.length - 1)).length
  s!"  × {diagnostic.message}\n" ++
  s!"{blanks (width + 2)}╭─[{file.text}:{excerpt.line}:{excerpt.column}]\n" ++
  String.join (drawnLines width excerpt diagnostic.label) ++
  s!"{blanks (width + 2)}╰────\n" ++
  match diagnostic.help with
  | some help => s!"  help: {help}\n"
  | none => ""

end Diagnostic

end SpecWording
