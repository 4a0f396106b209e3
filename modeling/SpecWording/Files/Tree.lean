import SpecWording.Path

/-!
# File trees

A file tree says for places what is there: a file with its bytes, a directory, or a link to another
path. A place is a list of names from the root and contains neither `.` nor `..`; a path is looked up
name by name, which is where links, missing names and names below files show. What a command knows
of the system besides its files is its `Environment`.
-/

namespace SpecWording

/-- The names from the root down to an entry. -/
abbrev Place := List String

inductive Entry where
  | file (content : ByteArray)
  | directory
  | link (target : Path)
  deriving Inhabited

namespace Entry

/-- Entries of one kind are equal if they hold the same. -/
def decideEq : (a b : Entry) → Decidable (a = b)
  | file ⟨a⟩, file ⟨b⟩ =>
    if h : a = b then isTrue (congrArg (fun bytes => file ⟨bytes⟩) h)
    else isFalse fun same => h (by injection same with same; injection same)
  | directory, directory => isTrue rfl
  | link a, link b =>
    if h : a = b then isTrue (congrArg link h)
    else isFalse fun same => h (by injection same)
  | file _, directory => isFalse nofun
  | file _, link _ => isFalse nofun
  | directory, file _ => isFalse nofun
  | directory, link _ => isFalse nofun
  | link _, file _ => isFalse nofun
  | link _, directory => isFalse nofun

end Entry

instance : DecidableEq Entry := Entry.decideEq

structure FileTree where
  entries : List (Place × Entry) := []
  deriving Inhabited

/-- Why a path leads nowhere, or not to what was asked for. -/
inductive PathError where
  | missing
  | notDirectory
  | isDirectory
  | tooManyLinks
  deriving DecidableEq, Repr, Inhabited

namespace PathError

def message : PathError → String
  | missing => "No such file or directory (os error 2)"
  | notDirectory => "Not a directory (os error 20)"
  | isDirectory => "Is a directory (os error 21)"
  | tooManyLinks => "Too many levels of symbolic links (os error 40)"

end PathError

/-- Why a file cannot be read as a text. -/
inductive ReadError where
  | path (cause : PathError)
  | notText
  deriving DecidableEq, Repr, Inhabited

namespace ReadError

def message : ReadError → String
  | path cause => cause.message
  | notText => "stream did not contain valid UTF-8"

end ReadError

namespace FileTree

/-- What is at a place; the root is a directory of every tree. -/
def entry? (tree : FileTree) : Place → Option Entry
  | [] => some .directory
  | place => tree.entries.lookup place

def isDirectoryAt (tree : FileTree) (place : Place) : Bool := tree.entry? place == some .directory

/-- Steps of a lookup: the segments of a path, where an empty one means the same as `.`. -/
def steps (path : Path) : List String :=
  (Text.fields '/' path.text.toList).map String.ofList

/-- The number of links that one lookup follows. -/
def linkLimit : Nat := 40

/--
Follows steps from a place. A missing last name is the place of a new entry if one may be `created`,
and an error otherwise.
-/
def follow (tree : FileTree) (created : Bool) (links : Nat) (place : Place) :
    List String → Except PathError Place
  | [] => .ok place
  | step :: steps =>
    if !tree.isDirectoryAt place then .error .notDirectory
    else if step == "" || step == "." then follow tree created links place steps
    else if step == ".." then follow tree created links place.dropLast steps
    else match tree.entry? (place ++ [step]) with
      | some (.link target) =>
        match links with
        | 0 => .error .tooManyLinks
        | links + 1 =>
          follow tree created links (if target.isAbsolute then [] else place)
            (FileTree.steps target ++ steps)
      | some _ => follow tree created links (place ++ [step]) steps
      | none => if created && steps.isEmpty then .ok (place ++ [step]) else .error .missing
termination_by steps => (links, steps.length)

/-- The place that a path leads to from a directory. -/
def locate (tree : FileTree) (directory : Place) (path : Path) (created : Bool) :
    Except PathError Place :=
  if path.text.isEmpty then .error .missing
  else tree.follow created linkLimit (if path.isAbsolute then [] else directory) (steps path)

/-- What a path leads to. -/
def find (tree : FileTree) (directory : Place) (path : Path) : Except PathError Entry := do
  match tree.entry? (← tree.locate directory path false) with
  | some entry => return entry
  | none => throw .missing

def isFile (tree : FileTree) (directory : Place) (path : Path) : Bool :=
  match tree.find directory path with
  | .ok (.file _) => true
  | _ => false

/-- Whether a path leads to anything. -/
def holds (tree : FileTree) (directory : Place) (path : Path) : Bool :=
  match tree.find directory path with
  | .ok _ => true
  | .error _ => false

def readBytes (tree : FileTree) (directory : Place) (path : Path) : Except PathError ByteArray := do
  match ← tree.find directory path with
  | .file content => return content
  | _ => throw .isDirectory

def readText (tree : FileTree) (directory : Place) (path : Path) : Except ReadError String :=
  match tree.readBytes directory path with
  | .error cause => .error (.path cause)
  | .ok bytes =>
    match String.fromUTF8? bytes with
    | some text => .ok text
    | none => .error .notText

/-- Puts an entry at a place, in the stead of what was there. -/
def put (tree : FileTree) (place : Place) (entry : Entry) : FileTree :=
  if (tree.entries.lookup place).isSome then
    ⟨tree.entries.map fun old => if old.1 == place then (place, entry) else old⟩
  else ⟨tree.entries ++ [(place, entry)]⟩

/-- Writes a text to where a path leads, which may be a new file in an existing directory. -/
def writeText (tree : FileTree) (directory : Place) (path : Path) (text : String) :
    Except PathError FileTree := do
  let place ← tree.locate directory path true
  if tree.isDirectoryAt place then throw .isDirectory
  return tree.put place (.file text.toUTF8)

/-- Removes what is at a place and everything below it. -/
def remove (tree : FileTree) (place : Place) : FileTree :=
  ⟨tree.entries.filter fun entry => !place.isPrefixOf entry.1⟩

/-- Puts an entry at a place and makes the directories above it. -/
def putWithParents (tree : FileTree) (place : Place) (entry : Entry) : FileTree :=
  let parents := (List.range place.length).map place.take
  (parents.foldl (fun tree parent =>
    if (tree.entry? parent).isSome then tree else tree.put parent .directory) tree).put place entry

/-- The names from a place down to every entry below it, with the entries. -/
def below (tree : FileTree) (place : Place) : List (Place × Entry) :=
  tree.entries.filterMap fun (other, entry) =>
    if place.isPrefixOf other && place.length < other.length then
      some (other.drop place.length, entry)
    else none

end FileTree

namespace Place

/-- The path of a place, from the root on. -/
def path (place : Place) : Path := ⟨"/" ++ "/".intercalate place⟩

end Place

/-! ## Where a command runs -/

structure Environment where
  workingDirectory : Place
  /-- The user's home directory, where settings for all projects are looked for. -/
  home : Option Path := none
  /-- The directory of the user-wide configuration, if it is not the one in the home directory. -/
  configDirectory : Option Path := none
  deriving Inhabited

end SpecWording
