import SpecWording.Analysis.Discovery
import SpecWording.Report.Result

/-!
# Running an analysis

The discovered files are read, checked and, if corrected, written back one after another. A file that
cannot be parsed is passed over unless the analyzer is strict, and one that cannot be read ends the
run. Whatever was written before the run ends stays written.
-/

namespace SpecWording

/-- What a run leaves behind: the files, the log, and a result or the reason why there is none. -/
structure Outcome (α : Type) where
  tree : FileTree
  log : Log
  result : Except AnalysisError α

namespace Outcome

def after {α : Type} (outcome : Outcome α) (log : Log) : Outcome α :=
  { outcome with log := log ++ outcome.log }

end Outcome

namespace LintResult

/-- Adds the report on one more file. -/
def add (result : LintResult) (report : SourceReport) : LintResult where
  violations := result.violations ++ report.violations
  filesChecked := result.filesChecked + 1
  filesFixed := result.filesFixed + (if report.corrected.isSome then 1 else 0)

/-- By file, then line, then column. -/
def comesFirst (a b : Violation) : Bool :=
  ((a.location.file.compare b.location.file).then
    ((compare a.location.line b.location.line).then
      (compare a.location.column b.location.column))) != .gt

/-- Puts the violations in the order of reports; those of one position keep theirs. -/
def sorted (result : LintResult) : LintResult :=
  { result with violations := result.violations.mergeSort comesFirst }

end LintResult

namespace Analyzer

/-- The text of a file, and the report on it. -/
def checkFile (analyzer : Analyzer) (tree : FileTree) (directory : Place) (path : Path) :
    Except AnalysisError SourceReport :=
  match tree.readText directory path with
  | .error cause => .error (.unreadable cause)
  | .ok content => analyzer.checkText path content

/-- Writes a corrected text back, with the log entry for it. -/
def writeBack (tree : FileTree) (directory : Place) (path : Path) (corrected : Option String) :
    Except AnalysisError (FileTree × Log) :=
  match corrected with
  | none => .ok (tree, [])
  | some text =>
    match tree.writeText directory path text with
    | .error cause => .error (.unreadable (.path cause))
    | .ok tree => .ok (tree, [.info s!"Corrected {path.text}"])

def analyzeFiles (analyzer : Analyzer) (directory : Place) (tree : FileTree)
    (result : LintResult) : List Path → Outcome LintResult
  | [] => ⟨tree, [], .ok result⟩
  | path :: paths =>
    match analyzer.checkFile tree directory path with
    | .ok report =>
      match writeBack tree directory path report.corrected with
      | .ok (tree, log) =>
        (analyzeFiles analyzer directory tree (result.add report) paths).after (report.log ++ log)
      | .error error => ⟨tree, report.log, .error error⟩
    | .error (.unparsable path reason) =>
      let log : Log := [.warn s!"Failed to parse {path.text}: {reason}"]
      if analyzer.strict then ⟨tree, log, .error (.unparsable path reason)⟩
      else (analyzeFiles analyzer directory tree result paths).after log
    | .error error => ⟨tree, [], .error error⟩

/-- Analyzes all files below the root. -/
def run (analyzer : Analyzer) (tree : FileTree) (environment : Environment) : Outcome LintResult :=
  let start : Log := [.info s!"Starting analysis at {analyzer.root.text}"]
  match analyzer.discover tree environment with
  | .error error => ⟨tree, start, .error error⟩
  | .ok paths =>
    let found : Log := [.info s!"Found {paths.length} files to analyze"]
    let outcome :=
      (analyzer.analyzeFiles environment.workingDirectory tree {} paths).after (start ++ found)
    match outcome.result with
    | .error error => { outcome with result := .error error }
    | .ok result =>
      let result := result.sorted
      let finished : LogEntry := .info (s!"Analysis complete: {result.violations.length} " ++
        s!"violations in {result.filesChecked} files")
      { outcome with log := outcome.log ++ [finished], result := .ok result }

end Analyzer

end SpecWording
