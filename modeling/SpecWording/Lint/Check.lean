import SpecWording.Config.Basic
import SpecWording.Lint.Rule
import SpecWording.Report.Result
import SpecWording.Text.Edit

/-!
# Checking one file

Every node is offered to every rule that the configuration leaves enabled. Without fixing the
violations are reported as they are. With fixing, the replacements of all fixable rules are applied
together, a violation gets its replacement as a suggestion, and it counts as fixed if its own
replacement was applied.
-/

namespace SpecWording

open Syntax (Node)

/-- A violation with the rule that reported it. -/
structure Finding where
  rule : Rule
  violation : Violation

/-- What checking one file gives. -/
structure SourceReport where
  /-- The violations in the order of the walk, those of one node in the order of the rules. -/
  violations : List Violation := []
  /-- The text with all corrections, if that differs from what was checked. -/
  corrected : Option String := none
  log : Log := []
  deriving DecidableEq, Repr, Inhabited

namespace Violation

def withSeverity (violation : Violation) : Option Severity → Violation
  | some severity => { violation with severity := severity }
  | none => violation

end Violation

namespace Replacement

def edit (replacement : Replacement) : Text.Edit :=
  ⟨replacement.location.offset, replacement.location.length, replacement.newText⟩

/-- What is logged about a replacement that was not applied. -/
def skipped (replacement : Replacement) : Text.Verdict → Option LogEntry
  | .applied => none
  | .outside =>
    let location := replacement.location
    some (.warn (s!"Skipping replacement outside {location.file.text}: " ++
      s!"{location.offset}..{location.stop}"))
  | .overlapping =>
    some (.warn s!"Skipping overlapping replacement at {replacement.location.position}")

/-- The suggestion to apply a replacement. -/
def suggestion (replacement : Replacement) : Suggestion :=
  ⟨"Replace with \x60" ++ replacement.newText ++ "\x60", some replacement⟩

end Replacement

/-- The text with all replacements applied that can be, and the judgements on them. -/
def applyReplacements (source : String) (replacements : List Replacement) : Text.Edited :=
  Text.applyEdits source (replacements.map Replacement.edit)

/-- What is logged while replacements are applied, in the order in which they are judged. -/
def skippedLog (replacements : List Replacement) (edited : Text.Edited) : Log :=
  edited.judgements.filterMap fun judgement => do
    let replacement ← replacements[judgement.index]?
    replacement.skipped judgement.verdict

namespace Finding

/-- The replacement for a finding, if its rule has one and may correct at all. -/
def replacement? (file : SourceFile) (finding : Finding) : Option Replacement :=
  if finding.rule.fixable then finding.rule.correct file finding.violation else none

/-- Gives every finding with a replacement its suggestion and the next of the flags. -/
def mark (file : SourceFile) : List Finding → List Bool → List Violation
  | [], _ => []
  | finding :: findings, flags =>
    match finding.replacement? file with
    | none => finding.violation :: mark file findings flags
    | some replacement =>
      { finding.violation with
        suggestion := some replacement.suggestion
        fixed := flags.head?.getD false } :: mark file findings flags.tail

end Finding

/-- Everything that enabled rules report, before any correction. -/
def findings (rules : List Rule) (config : Config) (file : SourceFile) (tree : Node) :
    List Finding :=
  let enabled := rules.filter fun rule => config.isEnabled rule.name
  tree.walk.flatMap fun node => enabled.filterMap fun rule =>
    (rule.check file node).map fun violation =>
      ⟨rule, violation.withSeverity (config.severity? rule.name)⟩

/-- The report with all corrections made. -/
def fixAll (file : SourceFile) (findings : List Finding) : SourceReport :=
  let replacements := findings.filterMap (·.replacement? file)
  let edited := applyReplacements file.content replacements
  { violations := Finding.mark file findings edited.flags
    corrected := if edited.text = file.content then none else some edited.text
    log := skippedLog replacements edited }

def checkTree (rules : List Rule) (config : Config) (fix : Bool) (file : SourceFile) (tree : Node) :
    SourceReport :=
  let found := findings rules config file tree
  if fix then fixAll file found else { violations := found.map (·.violation) }

end SpecWording
