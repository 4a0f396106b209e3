import SpecWording.Command.Help
import SpecWording.Command.Program
import SpecWording.Files.Tree
import SpecWording.Lint.Rule
import SpecWording.Report.Diagnostic
import SpecWording.Report.Encoding

/-!
# Reports and the list of rules

The result of a check is written in one of three formats. In the text format an uncorrected violation
is drawn with its source, which is read again after the check; a corrected one speaks of a text that
is no longer there, so it is only described. The built-in rules are listed in a table.
-/

namespace SpecWording

namespace Violation

/-- Where the source of a violation is, below the root of the analysis. -/
def sourcePath (violation : Violation) (tree : FileTree) (directory : Place) (root : Path) : Path :=
  let file := violation.location.file
  if file.isAbsolute then file
  else if tree.isFile directory root then root
  else root.join file

/-- The violation drawn with its source, if that is readable and the violation fits it. -/
def snippet? (violation : Violation) (tree : FileTree) (directory : Place) (root : Path) :
    Option String :=
  if violation.fixed then none
  else match tree.readText directory (violation.sourcePath tree directory root) with
    | .error _ => none
    | .ok source =>
      (violation.location.span? source).map (violation.diagnostic.render violation.location.file)

end Violation

namespace LintResult

/-- The colour of the summary: red, yellow or green, by the worst uncorrected violation. -/
def colour (result : LintResult) : String :=
  match result.worst? with
  | some .error => "\x1b[31m"
  | some .warning => "\x1b[33m"
  | _ => "\x1b[32m"

def plainColour : String := "\x1b[0m"

def textReport (result : LintResult) (tree : FileTree) (directory : Place) (root : Path) : String :=
  String.join (result.violations.map fun violation =>
    (violation.snippet? tree directory root).getD violation.paragraph ++ "\n") ++
  s!"{result.colour}{result.summary}{plainColour}\n"

def jsonReport (result : LintResult) : String := result.toJson.pretty ++ "\n"

def compactReport (result : LintResult) : String :=
  String.join (result.violations.map fun violation => violation.line ++ "\n")

/-- The report in a format; a tree and the root are there to draw from. -/
def report (result : LintResult) (format : Command.Format) (tree : FileTree) (directory : Place)
    (root : Path) : String :=
  match format with
  | .text => result.textReport tree directory root
  | .json => result.jsonReport
  | .compact => result.compactReport

end LintResult

end SpecWording

/-! ## The list of rules -/

namespace SpecWording.Command.RuleList

def row (code name fixable description : String) : String :=
  s!"{padded 10 code} {padded 25 name} {padded 8 fixable} {description}\n"

def rowOf (rule : Rule) : String :=
  row rule.code rule.name (if rule.fixable then "yes" else "no") rule.description

def ruler : String := String.ofList (List.replicate 80 '-')

/-- What is said below the table. -/
def advice : String :=
  "\nUse --rules to filter specific rules, e.g.:\n" ++
  "  wording-lint check --rules example-wording\n" ++
  "  wording-lint check --rules EW001 --fix\n"

def text (rules : List Rule) : String :=
  "Available rules:\n\n" ++ row "Code" "Name" "Fixable" "Description" ++ ruler ++ "\n" ++
  String.join (rules.map rowOf) ++ advice

end SpecWording.Command.RuleList
