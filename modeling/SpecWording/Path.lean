import SpecWording.Text.Fields

/-!
# Path texts

A path keeps the text it was written with, since reports and logs show that text. What a path means
is read off its parts: the root, a leading `.`, every `..` and every name. Repeated separators,
other `.` segments and a trailing separator leave no trace in the parts, and paths are compared and
ordered by their parts. Nothing in this module looks at a file tree.
-/

namespace SpecWording

structure Path where
  text : String
  deriving DecidableEq, Repr, Inhabited

namespace Path

inductive Part where
  | root
  | here
  | up
  | name (text : String)
  deriving DecidableEq, Repr

namespace Part

def rank : Part → Nat
  | root => 0
  | here => 1
  | up => 2
  | name _ => 3

/-- Names come after all other parts, and among themselves in the order of their characters. -/
def compare : Part → Part → Ordering
  | name a, name b => Ord.compare a b
  | a, b => Ord.compare a.rank b.rank

def text : Part → String
  | root => "/"
  | here => "."
  | up => ".."
  | name text => text

end Part

instance : ToString Path := ⟨text⟩

def isAbsolute (path : Path) : Bool := path.text.toList.head? == some '/'

/-- A segment that says nothing: the empty one and `.`. -/
def isVoid (segment : List Char) : Bool := segment == [] || segment == ['.']

def partOfSegment (segment : List Char) : Part :=
  if segment = ['.', '.'] then .up else .name (String.ofList segment)

/-- The part that comes from how a path begins, and the segments after it. -/
def split (path : Path) : Option Part × List (List Char) :=
  let segments := Text.fields '/' path.text.toList
  if path.isAbsolute then (some .root, segments.tail)
  else if segments.head? = some ['.'] then (some .here, segments.tail)
  else (none, segments)

def parts (path : Path) : List Part :=
  let (leading, segments) := path.split
  leading.toList ++ (segments.filter (!isVoid ·)).map partOfSegment

def compareParts : List Part → List Part → Ordering
  | [], [] => .eq
  | [], _ :: _ => .lt
  | _ :: _, [] => .gt
  | a :: as, b :: bs => (a.compare b).then (compareParts as bs)

def compare (a b : Path) : Ordering := compareParts a.parts b.parts

/-- Puts a path together from its leading part and segments. -/
def ofSegments : Option Part → List (List Char) → Path
  | some .root, segments => ⟨String.ofList ('/' :: Text.joinFields ['/'] segments)⟩
  | none, segments => ⟨String.ofList (Text.joinFields ['/'] segments)⟩
  | some leading, [] => ⟨leading.text⟩
  | some leading, segments =>
    ⟨String.ofList (leading.text.toList ++ '/' :: Text.joinFields ['/'] segments)⟩

def dropVoid (segments : List (List Char)) : List (List Char) := segments.dropWhile isVoid

def dropVoidEnd (segments : List (List Char)) : List (List Char) :=
  (dropVoid segments.reverse).reverse

/-- The path without its last part; the root and the empty path have no parent. -/
def parent? (path : Path) : Option Path :=
  let (leading, segments) := path.split
  match dropVoid segments.reverse, leading with
  | _ :: front, _ => some (ofSegments leading (dropVoid front).reverse)
  | [], some .here => some ⟨""⟩
  | [], _ => none

/-- A path and its parents, the nearest first. -/
def ancestors (path : Path) : List Path :=
  climb path.parts.length path
where
  climb : Nat → Path → List Path
    | 0, path => [path]
    | n + 1, path => path :: (path.parent?.map (climb n)).getD []

/-- The last part of a path, if that is a name. -/
def fileName? (path : Path) : Option String :=
  match path.parts.getLast? with
  | some (.name text) => some text
  | _ => none

/-- What follows the last period of the file name; a period that starts the name does not count. -/
def extension? (path : Path) : Option String := do
  let name ← path.fileName?
  let reversed := name.toList.reverse
  match reversed.dropWhile (· != '.') with
  | _ :: _ :: _ => some (String.ofList (reversed.takeWhile (· != '.')).reverse)
  | _ => none

/-- Appends a path; an absolute one stands by itself. -/
def join (base path : Path) : Path :=
  if path.isAbsolute then path
  else if base.text.isEmpty || base.text.toList.getLast? == some '/' then ⟨base.text ++ path.text⟩
  else ⟨base.text ++ "/" ++ path.text⟩

def joinAll (base : Path) (parts : List Part) : Path :=
  parts.foldl (fun path part => path.join ⟨part.text⟩) base

/-- The segments left after those that spell the given parts. -/
def dropParts : List Part → List (List Char) → Option (List (List Char))
  | [], segments => some segments
  | part :: parts, segments =>
    match dropVoid segments with
    | segment :: rest => if partOfSegment segment = part then dropParts parts rest else none
    | [] => none

/-- The rest of a path below a base, if the base's parts are the first parts of the path. -/
def below? (path base : Path) : Option Path :=
  let (leading, segments) := path.split
  let (baseLeading, baseSegments) := base.split
  let baseParts := (baseSegments.filter (!isVoid ·)).map partOfSegment
  if base.parts = [] then some (ofSegments leading (dropVoidEnd segments))
  else if leading = baseLeading then
    (dropParts baseParts segments).map fun rest => ofSegments none (dropVoidEnd (dropVoid rest))
  else none

/--
The path seen from the root: a relative one is placed in the working directory, `.` segments go and
`..` stays. A trailing separator stays, two leading ones too, and the empty path has no such form.
-/
def absolute? (path directory : Path) : Option Path :=
  if path.text.isEmpty then none
  else
    let parts := path.parts.filter (fun part => part != .root && part != .here)
    let slashes := (path.text.toList.takeWhile (· == '/')).length
    let base := if slashes = 0 then directory else if slashes = 2 then ⟨"//"⟩ else ⟨"/"⟩
    let full := base.joinAll parts
    some (if path.text.toList.getLast? == some '/' then full.join ⟨""⟩ else full)

end Path

end SpecWording
