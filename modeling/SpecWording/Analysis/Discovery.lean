import SpecWording.Analysis.Analyzer
import SpecWording.Ignore.Rules

/-!
# Discovering files

A root that is a file is the one file to analyze. Otherwise the files below the root are wanted that
no ignore rule skips, nor a directory on the way to them, and that the analyzer itself wants. Links
are not followed, apart from the root. The files come in the order of their paths.
-/

namespace SpecWording

namespace Discovery

/-- The path of an entry below the root. -/
def pathOf (root : Path) (rest : Place) : Path := rest.foldl (fun path name => path.join ⟨name⟩) root

/-- Whether an entry or a directory on the way to it is skipped. -/
def isSkipped (rules : Ignore.Rules) (directory : Place) (root : Path) (rest : Place) : Bool :=
  (List.range rest.length).any fun above =>
    let front := rest.take (above + 1)
    rules.skips (directory ++ front) (pathOf root front) (decide (above + 1 < rest.length))

/-- The files below a directory, in any order. -/
def filesBelow (tree : FileTree) (directory : Place) : List Place :=
  (tree.below directory).filterMap fun (rest, entry) =>
    match entry with
    | .file _ => some rest
    | _ => none

/-- The order in which files are analyzed. -/
def comesFirst (a b : Path) : Bool := a.compare b != .gt

/-- What is wrong in the ignore files above a directory. -/
def complaintsAbove (tree : FileTree) (useGit : Bool) (directory : Place) : List String :=
  (Ignore.above directory).flatMap fun place => (Ignore.Level.read tree useGit place).complaints

end Discovery

open Discovery in
/-- The files to analyze. -/
def Analyzer.discover (analyzer : Analyzer) (tree : FileTree) (environment : Environment) :
    Except AnalysisError (List Path) :=
  let root := analyzer.root
  if tree.isFile environment.workingDirectory root then .ok [root]
  else
    match tree.locate environment.workingDirectory root false with
    | .error cause =>
      .error (.walk s!"{root.text}: IO error for operation on {root.text}: {cause.message}")
    | .ok directory =>
      let useGit := analyzer.config.files.respectGitignore
      match complaintsAbove tree useGit directory with
      | [] =>
        let rules := Ignore.Rules.read tree environment useGit directory
        let kept := (filesBelow tree directory).filter (!isSkipped rules directory root ·)
        .ok (((kept.map (pathOf root)).filter analyzer.wants).mergeSort comesFirst)
      | complaints => .error (.walk ("\n".intercalate complaints))

end SpecWording
