import SpecWording.Ignore.Glob
import SpecWording.Text.Character

/-!
# Patterns of ignore files

A line of an ignore file says of the paths that its glob stands for that they are ignored, or with
an exclamation mark in front that they are not. A pattern with a slash at its start or in its middle
is about the whole path below the directory of its file, and every other one about names at any depth.
-/

namespace SpecWording.Ignore

/-- What a list of patterns says about a path. -/
inductive Verdict where
  | ignored
  | kept
  deriving DecidableEq, Repr

structure Pattern where
  verdict : Verdict
  directoriesOnly : Bool
  glob : List Token
  deriving Repr

/-- Why a line of an ignore file is no pattern. -/
structure PatternError where
  line : Nat
  pattern : String
  cause : GlobError
  deriving DecidableEq, Repr

namespace PatternError

def message (error : PatternError) : String :=
  s!"line {error.line}: error parsing glob '{error.pattern}': {error.cause.message}"

end PatternError

/-- A line as it counts: without whitespace at its end, unless the last of it is an escaped space. -/
def withoutMargin (line : List Char) : List Char :=
  match line.reverse with
  | ' ' :: '\\' :: _ => line
  | _ => Text.trimEnd line

/-- What the front of a line says: the verdict, whether the pattern is about the whole path, and the
rest. -/
def readFront : List Char → Verdict × Bool × List Char
  | '\\' :: '!' :: rest => (.ignored, false, '!' :: rest)
  | '\\' :: '#' :: rest => (.ignored, false, '#' :: rest)
  | '!' :: '/' :: rest => (.kept, true, rest)
  | '!' :: rest => (.kept, false, rest)
  | '/' :: rest => (.ignored, true, rest)
  | rest => (.ignored, false, rest)

/-- Whether a pattern ends in a slash, and the pattern without it. -/
def readBack (pattern : List Char) : Bool × List Char :=
  match pattern.reverse with
  | '/' :: '\\' :: front => (true, front.reverse)
  | '/' :: front => (true, front.reverse)
  | _ => (false, pattern)

def anyDepth : List Char := ['*', '*', '/']

/-- The glob of a pattern: names match at any depth, and two stars at the end match something. -/
def globOf (wholePath : Bool) (pattern : List Char) : List Char :=
  let atDepth :=
    if wholePath || pattern.contains '/' || pattern == ['*', '*'] then pattern
    else anyDepth ++ pattern
  if ['/', '*', '*'].isSuffixOf atDepth then atDepth ++ ['/', '*'] else atDepth

namespace Pattern

/-- The pattern of a line, if the line holds one. -/
def parse? (number : Nat) (line : List Char) : Except PatternError (Option Pattern) :=
  if line.head? = some '#' then .ok none
  else
    let line := withoutMargin line
    if line.isEmpty then .ok none
    else
      let (verdict, wholePath, rest) := readFront line
      let (directoriesOnly, pattern) := readBack rest
      match parseGlob (globOf wholePath pattern) with
      | .ok glob => .ok (some ⟨verdict, directoriesOnly, glob⟩)
      | .error cause => .error ⟨number, String.ofList line, cause⟩

def appliesTo (pattern : Pattern) (path : List UInt8) (isDirectory : Bool) : Bool :=
  (isDirectory || !pattern.directoriesOnly) && acceptsPath pattern.glob path

end Pattern

/-- The patterns of an ignore file, and its lines that are none. -/
structure Patterns where
  patterns : List Pattern := []
  errors : List PatternError := []
  deriving Repr

namespace Patterns

def addLine (number : Nat) (line : List Char) (later : Patterns) : Patterns :=
  match Pattern.parse? number line with
  | .ok none => later
  | .ok (some pattern) => { later with patterns := pattern :: later.patterns }
  | .error error => { later with errors := error :: later.errors }

def ofLines : List (List Char × Nat) → Patterns
  | [] => {}
  | (line, number) :: lines => addLine number line (ofLines lines)

/-- The last pattern that applies to a path decides. -/
def verdict? (patterns : Patterns) (path : String) (isDirectory : Bool) : Option Verdict :=
  (patterns.patterns.reverse.find? (·.appliesTo path.toUTF8.toList isDirectory)).map (·.verdict)

end Patterns

end SpecWording.Ignore
