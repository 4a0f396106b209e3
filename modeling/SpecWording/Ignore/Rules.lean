import SpecWording.Files.Tree
import SpecWording.Ignore.Pattern

/-!
# Which entries of a tree are skipped

Three kinds of ignore files may stand in a directory and speak about everything below it. Within a
kind the deepest directory that says something about an entry decides, and among the kinds the order
of `Level`'s fields. Last comes a file of the user's own. Of what nobody speaks about, hidden entries
are skipped. Nothing here asks whether a directory above the entry is skipped.
-/

namespace SpecWording.Ignore

/-- The ignore files of one directory. -/
structure Level where
  directory : Place
  general : Patterns := {}
  repository : Patterns := {}
  checkout : Patterns := {}
  deriving Repr

/-- All ignore files around a directory that is walked, those of deeper directories first. -/
structure Rules where
  levels : List Level := []
  personal : Patterns := {}
  deriving Repr

def dropCarriageReturn (line : List Char) : List Char :=
  match line.reverse with
  | '\r' :: front => front.reverse
  | _ => line

def byteOrderMark : Char := '\ufeff'

/-- The lines of bytes as texts, up to one that is no text. -/
def textLines (bytes : List UInt8) : List (List Char) :=
  let lines := split bytes
  let readable := (lines.map fun line => String.fromUTF8? ⟨line.toArray⟩).takeWhile (·.isSome)
  match readable.filterMap id |>.map (dropCarriageReturn ·.toList) with
  | first :: others => first.dropWhile (· == byteOrderMark) :: others
  | [] => []
where
  split : List UInt8 → List (List UInt8)
  | [] => [[]]
  | b :: bytes =>
    if b = 10 then [] :: split bytes
    else match split bytes with
      | line :: lines => (b :: line) :: lines
      | [] => [[b]]

/-- The patterns of an ignore file, none if it cannot be read. -/
def readPatterns (tree : FileTree) (directory : Place) (path : Path) : Patterns :=
  match tree.readBytes directory path with
  | .ok bytes => .ofLines ((textLines bytes.toList).zipIdx 1)
  | .error _ => {}

def generalFile : Path := ⟨".ignore"⟩

def repositoryFile : Path := ⟨".gitignore"⟩

def checkoutFile : Path := ⟨".git/info/exclude"⟩

namespace Level

/-- The ignore files of a directory; without `useGit` only the general one counts. -/
def read (tree : FileTree) (useGit : Bool) (directory : Place) : Level :=
  { directory := directory
    general := readPatterns tree directory generalFile
    repository := if useGit then readPatterns tree directory repositoryFile else {}
    checkout := if useGit then readPatterns tree directory checkoutFile else {} }

def saysNothing (level : Level) : Bool :=
  level.general.patterns.isEmpty && level.repository.patterns.isEmpty &&
    level.checkout.patterns.isEmpty

/-- The messages about lines that are no patterns. -/
def complaints (level : Level) : List String :=
  let about (file : Path) (patterns : Patterns) : List String :=
    patterns.errors.map fun error => s!"{level.directory.path.join file}: {error.message}"
  about generalFile level.general ++ about repositoryFile level.repository ++
    about checkoutFile level.checkout

/-- What one kind of ignore file says about an entry, from the deepest directory up. -/
def verdict? (kind : Level → Patterns) (levels : List Level) (entry : Place) (isDirectory : Bool) :
    Option Verdict :=
  levels.findSome? fun level =>
    if level.directory.isPrefixOf entry && level.directory.length < entry.length then
      (kind level).verdict? ("/".intercalate (entry.drop level.directory.length)) isDirectory
    else none

end Level

/-! ## The user's own ignore file -/

def afterWord? (word : List Char) (cs : List Char) : Option (List Char) :=
  if word.isPrefixOf (cs.map Char.toLower) then some (cs.drop word.length) else none

/-- The whitespace of settings is that of ASCII. -/
def isSpace (c : Char) : Bool := ('\t' ≤ c && c ≤ '\r') || c == ' '

def trimSpace (cs : List Char) : List Char :=
  ((cs.dropWhile isSpace).reverse.dropWhile isSpace).reverse

/-- The path that a line of the user's settings gives for the ignore file. -/
def settingOfLine? (line : List Char) : Option (List Char) := do
  let rest ← afterWord? "excludesfile".toList (line.dropWhile isSpace)
  match rest.dropWhile isSpace with
  | '=' :: rest =>
    let value := trimSpace rest
    let opened := if value.head? = some '"' then trimSpace value.tail else value
    let closed := if opened.getLast? = some '"' then trimSpace opened.dropLast else opened
    if closed.isEmpty || closed.any isSpace then none else some closed
  | _ => none

/-- A tilde in a path stands for the home directory. -/
def expandTilde (home : Path) (path : List Char) : Path :=
  ⟨String.ofList (path.flatMap fun c => if c = '~' then home.text.toList else [c])⟩

def settingsFiles : List Path := [⟨".gitconfig"⟩, ⟨".config/git/config"⟩]

def defaultPersonalFile : Path := ⟨".config/git/ignore"⟩

/-- The user's own ignore file: the one that the settings name, else the one in the usual place. -/
def personalFile (tree : FileTree) (environment : Environment) (home : Path) : Path :=
  let named := settingsFiles.findSome? fun file =>
    match tree.readBytes environment.workingDirectory (home.join file) with
    | .ok bytes => (textLines bytes.toList).findSome? settingOfLine?
    | .error _ => none
  match named with
  | some path => expandTilde home path
  | none => home.join defaultPersonalFile

def readPersonal (tree : FileTree) (environment : Environment) : Patterns :=
  match environment.home with
  | some home => readPatterns tree environment.workingDirectory (personalFile tree environment home)
  | none => {}

/-! ## All rules together -/

/-- The directories above a place, the root first. -/
def above (place : Place) : List Place := (List.range place.length).map place.take

namespace Rules

/-- The rules for everything below a directory. -/
def read (tree : FileTree) (environment : Environment) (useGit : Bool) (directory : Place) : Rules :=
  let inner := (tree.below directory).filterMap fun (rest, entry) =>
    if entry == .directory then some (directory ++ rest) else none
  let levels := (above directory ++ directory :: inner).map (Level.read tree useGit)
  { levels := (levels.filter (!·.saysNothing)).mergeSort fun a b =>
      b.directory.length ≤ a.directory.length
    personal := if useGit then readPersonal tree environment else {} }

/-- What the rules say about an entry, which has also the path that the walk reached it by. -/
def verdict? (rules : Rules) (entry : Place) (walked : Path) (isDirectory : Bool) : Option Verdict :=
  Level.verdict? (·.general) rules.levels entry isDirectory <|>
    Level.verdict? (·.repository) rules.levels entry isDirectory <|>
      Level.verdict? (·.checkout) rules.levels entry isDirectory <|>
        rules.personal.verdict? (String.ofList (walked.text.toList.dropWhile (· == '/'))) isDirectory

def isHidden (entry : Place) : Bool := (entry.getLast?.map (·.startsWith ".")).getD false

def skips (rules : Rules) (entry : Place) (walked : Path) (isDirectory : Bool) : Bool :=
  match rules.verdict? entry walked isDirectory with
  | some .ignored => true
  | some .kept => false
  | none => isHidden entry

end Rules

end SpecWording.Ignore
