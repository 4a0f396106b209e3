import SpecWording.Text.Scanner

/-!
# Globs

A glob describes whole path texts. A star stands for any characters, separators included; two stars
stand for any number of whole components and have to stand between separators; a question mark and
a bracketed set stand for one character. There are no escapes, and case matters.
-/

namespace SpecWording

namespace Glob

/-- A member of a bracketed set: the characters between two, both included. -/
structure CharRange where
  first : Char
  last : Char
  deriving DecidableEq, Repr

inductive Token where
  | char (c : Char)
  | anyChar
  | anySequence
  | anyComponents
  | oneOf (ranges : List CharRange)
  | noneOf (ranges : List CharRange)
  deriving DecidableEq, Repr

/-- Why a text is no glob; positions count characters from zero. -/
inductive Error where
  | invalidRange (position : Nat)
  | tooManyStars (position : Nat)
  | notOneComponent (position : Nat)
  deriving DecidableEq, Repr

namespace Error

def position : Error → Nat
  | invalidRange position => position
  | tooManyStars position => position
  | notOneComponent position => position

def reason : Error → String
  | invalidRange _ => "invalid range pattern"
  | tooManyStars _ => "wildcards are either regular \x60*\x60 or recursive \x60**\x60"
  | notOneComponent _ => "recursive wildcards must form a single path component"

def message (error : Error) : String :=
  s!"Pattern syntax error near position {error.position}: {error.reason}"

end Error

def isSeparator (c : Char) : Bool := c == '/'

/-- The ranges of a set: a hyphen between two characters makes a range of them. -/
def ranges : List Char → List CharRange
  | first :: '-' :: last :: rest => ⟨first, last⟩ :: ranges rest
  | c :: rest => ⟨c, c⟩ :: ranges rest
  | [] => []

/-- A set after its opening bracket, and what follows the closing one. -/
def set? : List Char → Option (Token × List Char)
  | '!' :: first :: rest =>
    if rest.contains ']' then
      some (.noneOf (ranges (first :: rest.takeWhile (· != ']'))), (rest.dropWhile (· != ']')).tail)
    else none
  | first :: rest =>
    if first != '!' && rest.contains ']' then
      some (.oneOf (ranges (first :: rest.takeWhile (· != ']'))), (rest.dropWhile (· != ']')).tail)
    else none
  | [] => none

/-- The token of two stars and what it takes with it: the separator behind it, if there is one. -/
def components (position : Nat) (previous : Option Char) (rest : List Char) :
    Except Error (List Char) :=
  if previous.all isSeparator then
    match rest with
    | [] => .ok []
    | c :: rest => if isSeparator c then .ok rest else .error (.notOneComponent (position + 2))
  else .error (.notOneComponent (position - 1))

theorem length_set?_lt {cs rest : List Char} {token : Token} (h : set? cs = some (token, rest)) :
    rest.length < cs.length := by
  have drop (xs : List Char) : (xs.dropWhile (· != ']')).tail.length ≤ xs.length := by
    have := (List.dropWhile_suffix (l := xs) (· != ']')).length_le
    simp only [List.length_tail]
    omega
  unfold set? at h
  split at h
  · split at h
    · obtain ⟨-, rfl⟩ := Prod.mk.inj (Option.some.inj h)
      rename_i tail _
      have := drop tail
      simp only [List.length_cons]
      omega
    · cases h
  · split at h
    · obtain ⟨-, rfl⟩ := Prod.mk.inj (Option.some.inj h)
      rename_i tail _ _
      have := drop tail
      simp only [List.length_cons]
      omega
    · cases h
  · cases h

theorem length_components_le {position : Nat} {previous : Option Char} {cs rest : List Char}
    (h : components position previous cs = .ok rest) : rest.length ≤ cs.length := by
  unfold components at h
  split at h
  · split at h
    · cases h; simp
    · split at h <;> cases h
      simp
  · cases h

/-- The tokens of a glob from a position on, where `previous` is the character before it. -/
def readTokens (position : Nat) (previous : Option Char) : List Char → Except Error (List Token)
  | [] => .ok []
  | '?' :: rest => do return .anyChar :: (← readTokens (position + 1) (some '?') rest)
  | '*' :: '*' :: '*' :: _ => .error (.tooManyStars (position + 2))
  | '*' :: '*' :: rest =>
    match h : components position previous rest with
    | .error error => .error error
    | .ok after => do
      have := length_components_le h
      return .anyComponents :: (← readTokens (position + 3) (some '/') after)
  | '*' :: rest => do return .anySequence :: (← readTokens (position + 1) (some '*') rest)
  | '[' :: rest =>
    match h : set? rest with
    | none => .error (.invalidRange position)
    | some (token, after) => do
      have := length_set?_lt h
      let read := rest.length + 1 - after.length
      return token :: (← readTokens (position + read) (some ']') after)
  | c :: rest => do return .char c :: (← readTokens (position + 1) (some c) rest)
termination_by cs => cs.length

def contains (ranges : List CharRange) (c : Char) : Bool :=
  ranges.any fun range => range.first ≤ c && c ≤ range.last

/-- What may be left of a text after what a token stands for. -/
def Token.remainders : Token → List Char → List (List Char)
  | char c, cs => Text.restAfter (· == c) cs
  | anyChar, cs => Text.restAfter (fun _ => true) cs
  | anySequence, cs => Text.suffixes cs
  | anyComponents, cs => cs :: Text.suffixesAfter isSeparator cs ++ [[]]
  | oneOf ranges, cs => Text.restAfter (contains ranges) cs
  | noneOf ranges, cs => Text.restAfter (!contains ranges ·) cs

end Glob

/-- A glob with its tokens. -/
structure Glob where
  tokens : List Glob.Token
  deriving DecidableEq, Repr

namespace Glob

def parse (text : String) : Except Error Glob := do return ⟨← readTokens 0 none text.toList⟩

def accepts (glob : Glob) (text : String) : Bool :=
  (glob.tokens.foldl (fun left token => Text.continueWith token.remainders left)
    [text.toList]).contains []

def parseAll (texts : List String) : Except Error (List Glob) := texts.mapM parse

end Glob

end SpecWording
