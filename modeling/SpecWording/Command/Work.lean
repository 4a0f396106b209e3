import SpecWording.Analysis.Analyzer
import SpecWording.Config.Source
import SpecWording.Report.Result

/-!
# Commands that log and may fail

Whatever was logged before a command fails stays in the log.
-/

namespace SpecWording.Command

/-- Why a command fails. -/
inductive Failure where
  | config (path : Path) (cause : ConfigError)
  | ruleOptions
  | analyzer (cause : AnalysisError)
  | analysis (cause : AnalysisError)
  | configExists (path : Path)
  | unwritable (cause : PathError)
  deriving DecidableEq, Repr, Inhabited

namespace Failure

/-- What could not be done. -/
def summary : Failure → String
  | config path _ => s!"Failed to load config: {path.text}"
  | ruleOptions => "Invalid rule options"
  | analyzer _ => "Failed to build analyzer"
  | analysis _ => "Analysis failed"
  | configExists path =>
    s!"Configuration file already exists at {path.text}. Use --force to overwrite."
  | unwritable cause => cause.message

/-- Why it could not be done, if that is more than the summary says. -/
def cause? : Failure → Option String
  | config _ cause => some cause.message
  | ruleOptions => some ConfigError.malformed.message
  | analyzer cause => some cause.message
  | analysis cause => some cause.message
  | configExists _ => none
  | unwritable _ => none

def message (failure : Failure) : String :=
  s!"Error: {failure.summary}\n" ++
  match failure.cause? with
  | some cause => s!"\nCaused by:\n    {cause}\n"
  | none => ""

end Failure

abbrev Work := ExceptT Failure (StateM Log)

namespace Work

def note (entry : LogEntry) : Work Unit := modify (· ++ [entry])

/-- A value, or a failure for the reason that there is none. -/
def ofExcept {ε α : Type} (failure : ε → Failure) : Except ε α → Work α
  | .ok a => pure a
  | .error error => throw (failure error)

def ofOption {α : Type} (failure : Failure) : Option α → Work α
  | some a => pure a
  | none => throw failure

/-- The result of some work, and everything that was logged. -/
def perform {α : Type} (work : Work α) : Except Failure α × Log := work.run.run []

end Work

end SpecWording.Command
