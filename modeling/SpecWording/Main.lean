import SpecWording.Command.Run

/-!
# The program

The program looks at those parts of the file system that a command line can depend on, runs the
command on what it has seen, prints the answer and writes the changed files.
-/

namespace SpecWording.Main

open Command

/-- What is at a place, if it is there and readable; a link leads to where it ends. -/
def entryAt? (place : Place) : IO (Option Entry) := do
  let file := (← IO.currentDir) / place.path.text
  try
    match (← file.symlinkMetadata).type with
    | .dir => return some .directory
    | .file => return some (.file (← IO.FS.readBinFile file))
    | .symlink =>
      if ← file.pathExists then return some (.link ⟨(← IO.FS.realPath file).toString⟩)
      else return none
    | .other => return none
  catch _ => return none

/-- Adds what lies on the way along some steps. -/
partial def look (tree : FileTree) (place : Place) : List String → IO FileTree
  | [] => return tree
  | step :: steps =>
    if step == "" || step == "." then look tree place steps
    else if step == ".." then look tree place.dropLast steps
    else do
      let next := place ++ [step]
      match ← entryAt? next with
      | none => return tree
      | some (.link target) =>
        look (tree.put next (.link target)) [] (FileTree.steps target ++ steps)
      | some entry => look (tree.put next entry) next steps

/-- Adds what paths lead to. -/
def lookAll (tree : FileTree) (directory : Place) (paths : List Path) : IO FileTree :=
  paths.foldlM (fun tree path => look tree [] (FileTree.steps (directory.path.join path))) tree

def ignoreFiles : List Path := [Ignore.generalFile, Ignore.repositoryFile, Ignore.checkoutFile]

/-- Whether an analysis may read a file of some name. -/
def isRead (name : String) : Bool :=
  ignoreFiles.any (·.text == name) ||
    ((Path.mk name).extension?.map ruby.extensions.contains).getD false

/-- The ignore file of a checkout, with the directory it is in. -/
def belowCheckout (place : Place) : IO (List (Place × Entry)) := do
  let directory := place ++ ["info"]
  let file := directory ++ ["exclude"]
  match ← entryAt? directory, ← entryAt? file with
  | some inner, some entry => return [(directory, inner), (file, entry)]
  | _, _ => return []

/-- What lies below a directory, as far as an analysis may read it. -/
partial def below (directory : Place) : IO (List (Place × Entry)) := do
  let entries ← (← IO.currentDir) / directory.path.text |>.readDir
  let found ← entries.toList.mapM fun entry => do
    let place := directory ++ [entry.fileName]
    match ← (entry.path).isDir, isRead entry.fileName with
    | false, false => return []
    | _, _ =>
      match ← entryAt? place with
      | some .directory =>
        let inner ← if entry.fileName == ".git" then belowCheckout place else below place
        return (place, .directory) :: inner
      | some entry => return [(place, entry)]
      | none => return []
  return found.flatten

/-- Adds the files that say what holds for the directories above a path. -/
def lookAbove (tree : FileTree) (directory : Place) (path : Path) : IO FileTree :=
  let start := (path.absolute? directory.path).getD path
  lookAll tree directory (start.ancestors.flatMap fun above =>
    ConfigSource.fileNames.map above.join)

/-- The ignore files in a directory and above it. -/
def ignoreFilesFor (directory : Place) : List Path :=
  (Ignore.above directory ++ [directory]).flatMap fun place => ignoreFiles.map place.path.join

/-- Adds what the analysis of a root depends on. -/
def lookAtRoot (tree : FileTree) (environment : Environment) (root : Path) : IO FileTree := do
  let here := environment.workingDirectory
  let tree ← lookAll tree here [root]
  match tree.locate here root false with
  | .error _ => return tree
  | .ok place =>
    let tree ← lookAll tree here (ignoreFilesFor place)
    if tree.isDirectoryAt place then
      let inner ← below place
      let known := tree.entries.filter fun (other, _) => !inner.any (·.1 == other)
      return ⟨known ++ inner⟩
    else return tree

/-- What the options of a check and the environment lead to. -/
def lookFor (options : CheckOptions) (environment : Environment) : IO FileTree := do
  let here := environment.workingDirectory
  let path := options.path.getD ⟨"."⟩
  let tree ← lookAll {} here (here.path :: path :: options.config.toList)
  let tree ← lookAbove tree here path
  let shared := environment.sharedDirectory?.map (·.join ConfigSource.sharedFileName)
  let tree ← lookAll tree here shared.toList
  let tree ← match environment.home with
    | none => pure tree
    | some home => do
      let tree ← lookAll tree here (Ignore.settingsFiles.map home.join)
      lookAll tree here [Ignore.personalFile tree environment home]
  match (options.prepare tree environment).perform with
  | (.ok analyzer, _) => lookAtRoot tree environment analyzer.root
  | (.error _, _) => return tree

def readEnvironment : IO Environment := do
  let here := FileTree.steps ⟨(← IO.FS.realPath (← IO.currentDir)).toString⟩
  return {
    workingDirectory := here.filter (· != "")
    home := (← IO.getEnv "HOME").map Path.mk
    configDirectory := (← IO.getEnv "WORDING_LINT_CONFIG_DIR").map Path.mk }

def optionsOf (words : List String) : CheckOptions :=
  match Invocation.ofWords linter words with
  | .run subcommand given =>
    match Request.ofGiven subcommand given with
    | .check options => options
    | _ => {}
  | _ => {}

/-- Writes the files in which one tree differs from another. -/
def writeChanges (before after : FileTree) : IO Unit := do
  for (place, entry) in after.entries do
    if let .file content := entry then
      if before.entry? place != some entry then IO.FS.writeBinFile place.path.text content

end SpecWording.Main

open SpecWording in
def main (words : List String) : IO UInt32 := do
  let environment ← Main.readEnvironment
  let tree ← Main.lookFor (Main.optionsOf words) environment
  let answer := Command.run words tree environment
  for entry in answer.log do IO.eprintln entry.line
  IO.eprint answer.errors
  IO.print answer.output
  Main.writeChanges tree answer.tree
  return answer.exitCode.toUInt32
