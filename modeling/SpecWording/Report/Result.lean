import SpecWording.Report.Violation

/-!
# The result of a run and its log
-/

namespace SpecWording

structure LintResult where
  violations : List Violation := []
  filesChecked : Nat := 0
  filesFixed : Nat := 0
  deriving DecidableEq, Repr, Inhabited

namespace LintResult

/-- The violations that were not corrected. -/
def remaining (result : LintResult) : List Violation := result.violations.filter (!·.fixed)

/-- Whether an uncorrected violation is at or above a severity. -/
def hasViolationsAt (result : LintResult) (threshold : Severity) : Bool :=
  result.remaining.any (·.severity.reaches threshold)

def fixedCount (result : LintResult) : Nat := result.violations.countP (·.fixed)

/-- The number of violations of a severity, corrected ones included. -/
def count (result : LintResult) (severity : Severity) : Nat :=
  result.violations.countP (·.severity == severity)

/-- The highest severity among the uncorrected violations. -/
def worst? (result : LintResult) : Option Severity :=
  [Severity.error, .warning, .info].find? fun severity =>
    result.remaining.any (·.severity == severity)

def summary (result : LintResult) : String :=
  s!"Found {result.count .error} error(s), {result.count .warning} warning(s), " ++
  s!"{result.count .info} info(s) in {result.filesChecked} file(s)" ++
  if result.filesFixed > 0 then
    s!", corrected {result.fixedCount} in {result.filesFixed} file(s)"
  else ""

end LintResult

/-! ## Log entries -/

inductive LogLevel where
  | info
  | warn
  | error
  deriving DecidableEq, Repr, Inhabited

namespace LogLevel

def name : LogLevel → String
  | info => "INFO"
  | warn => "WARN"
  | error => "ERROR"

end LogLevel

structure LogEntry where
  level : LogLevel
  text : String
  deriving DecidableEq, Repr, Inhabited

namespace LogEntry

def info (text : String) : LogEntry := ⟨.info, text⟩

def warn (text : String) : LogEntry := ⟨.warn, text⟩

def line (entry : LogEntry) : String := entry.level.name ++ " " ++ entry.text

end LogEntry

/-- Entries in the order in which they were made. -/
abbrev Log := List LogEntry

end SpecWording
