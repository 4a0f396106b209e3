import SpecWording.Command.Check
import SpecWording.Command.Init
import SpecWording.Command.Report

/-!
# Running a command line

A command line is answered with an exit code, two texts, log entries and the files as they are then.
The code is 0 for success, 1 for a failure and for violations that remain, and 2 for a command line
that cannot be read.
-/

namespace SpecWording.Command

structure Answer where
  exitCode : Nat
  output : String := ""
  errors : String := ""
  log : Log := []
  tree : FileTree
  deriving Inhabited

namespace Answer

def failed (tree : FileTree) (log : Log) (failure : Failure) : Answer :=
  { exitCode := 1, errors := failure.message, log, tree }

end Answer

/-- The exit code of a check: violations at or above the threshold make it fail. -/
def exitCodeOf (result : LintResult) (threshold : Severity) : Nat :=
  if result.hasViolationsAt threshold then 1 else 0

/-- Analyzes, and reports the result. -/
def checkWith (analyzer : Analyzer) (format : Format) (tree : FileTree)
    (environment : Environment) : Answer :=
  let outcome := analyzer.run tree environment
  match outcome.result with
  | .error error => .failed outcome.tree outcome.log (.analysis error)
  | .ok result =>
    { exitCode := exitCodeOf result analyzer.config.threshold
      output := result.report format outcome.tree environment.workingDirectory analyzer.root
      log := outcome.log
      tree := outcome.tree }

def check (options : CheckOptions) (tree : FileTree) (environment : Environment) : Answer :=
  match (options.prepare tree environment).perform with
  | (.error failure, log) => .failed tree log failure
  | (.ok analyzer, log) =>
    let answer := checkWith analyzer options.format tree environment
    { answer with log := log ++ answer.log }

def init (force : Bool) (tree : FileTree) (environment : Environment) : Answer :=
  match Init.write tree environment.workingDirectory force with
  | .error failure => .failed tree [] failure
  | .ok tree => { exitCode := 0, output := Init.advice, tree }

namespace Request

def answer (tree : FileTree) (environment : Environment) : Request → Answer
  | check options => Command.check options tree environment
  | listRules => { exitCode := 0, output := RuleList.text Wording.defaultRules, tree }
  | init force => Command.init force tree environment

end Request

namespace UsageError

/-- The whole text about a command line that cannot be read. -/
def text (error : UsageError) : String :=
  s!"error: {error.message}\n\nFor more information, try '--help'.\n"

end UsageError

namespace Invocation

def answer (tree : FileTree) (environment : Environment) : Invocation → Answer
  | run subcommand given => (Request.ofGiven subcommand given).answer tree environment
  | help subcommand inFull => { exitCode := 0, output := linter.helpText subcommand inFull, tree }
  | version => { exitCode := 0, output := s!"{linter.name} {linter.version}\n", tree }
  | silent => { exitCode := 2, errors := linter.helpText none false, tree }
  | wrong error => { exitCode := 2, errors := error.text, tree }

end Invocation

/-- Runs the linter with the words of a command line. -/
def run (words : List String) (tree : FileTree) (environment : Environment) : Answer :=
  (Invocation.ofWords linter words).answer tree environment

end SpecWording.Command
