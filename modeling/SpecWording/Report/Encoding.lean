import SpecWording.Json.Reader
import SpecWording.Report.Result

/-!
# Results as JSON

Every record is an object with its fields in order, and a missing optional value is `null`. Reading
is more generous than writing: other members are passed over, an optional value may be left out of
an object, and the two fields that came later than the others have defaults.
-/

namespace SpecWording

namespace Severity

def toJson (severity : Severity) : Json := .ofString severity.name

/-- A severity is its name, or an object whose one member has that name and no value. -/
def ofJson? : Json → Option Severity
  | .object [(name, .null)] => do ofName? (String.ofList (← Json.Quoted.decode name))
  | json => json.string? >>= ofName?

end Severity

namespace Location

def toJson (location : Location) : Json :=
  .ofMembers [("file", .ofString location.file.text), ("line", .ofNat location.line),
    ("column", .ofNat location.column), ("offset", .ofNat location.offset),
    ("length", .ofNat location.length)]

def ofJson? (json : Json) : Option Location := do
  match ← json.record? [⟨"file", false⟩, ⟨"line", false⟩, ⟨"column", false⟩, ⟨"offset", false⟩,
      ⟨"length", false⟩] with
  | [file, line, column, offset, length] =>
    return ⟨⟨← (← file).string?⟩, ← (← line).counter?, ← (← column).counter?,
      ← (← offset).counter?, ← (← length).counter?⟩
  | _ => none

end Location

namespace Replacement

def toJson (replacement : Replacement) : Json :=
  .ofMembers [("location", replacement.location.toJson), ("new_text", .ofString replacement.newText)]

def ofJson? (json : Json) : Option Replacement := do
  match ← json.record? [⟨"location", false⟩, ⟨"new_text", false⟩] with
  | [location, newText] => return ⟨← Location.ofJson? (← location), ← (← newText).string?⟩
  | _ => none

end Replacement

/-- An optional value; `null` stands for none. -/
def Json.ofOption {α : Type} (write : α → Json) : Option α → Json
  | some value => write value
  | none => .null

namespace Suggestion

def toJson (suggestion : Suggestion) : Json :=
  .ofMembers [("message", .ofString suggestion.message),
    ("replacement", .ofOption Replacement.toJson suggestion.replacement)]

def ofJson? (json : Json) : Option Suggestion := do
  match ← json.record? [⟨"message", false⟩, ⟨"replacement", true⟩] with
  | [message, replacement] =>
    return ⟨← (← message).string?, ← Json.orNull? Replacement.ofJson? (← replacement)⟩
  | _ => none

end Suggestion

namespace Violation

def toJson (violation : Violation) : Json :=
  .ofMembers [("code", .ofString violation.code), ("rule", .ofString violation.rule),
    ("severity", violation.severity.toJson), ("location", violation.location.toJson),
    ("message", .ofString violation.message),
    ("suggestion", .ofOption Suggestion.toJson violation.suggestion),
    ("fixed", .bool violation.fixed)]

def ofJson? (json : Json) : Option Violation := do
  match ← json.record? [⟨"code", false⟩, ⟨"rule", false⟩, ⟨"severity", false⟩, ⟨"location", false⟩,
      ⟨"message", false⟩, ⟨"suggestion", true⟩, ⟨"fixed", false⟩] with
  | [code, rule, severity, location, message, suggestion, fixed] =>
    return {
      code := ← (← code).string?
      rule := ← (← rule).string?
      severity := ← Severity.ofJson? (← severity)
      location := ← Location.ofJson? (← location)
      message := ← (← message).string?
      suggestion := ← Json.orNull? Suggestion.ofJson? (← suggestion)
      fixed := ← (fixed.getD (.bool false)).bool? }
  | _ => none

end Violation

namespace LintResult

def toJson (result : LintResult) : Json :=
  .ofMembers [("violations", .array (result.violations.map Violation.toJson)),
    ("files_checked", .ofNat result.filesChecked), ("files_fixed", .ofNat result.filesFixed)]

def ofJson? (json : Json) : Option LintResult := do
  match ← json.record? [⟨"violations", false⟩, ⟨"files_checked", false⟩, ⟨"files_fixed", false⟩] with
  | [violations, filesChecked, filesFixed] =>
    return {
      violations := ← (← (← violations).items?).mapM Violation.ofJson?
      filesChecked := ← (← filesChecked).counter?
      filesFixed := ← (filesFixed.getD (.ofNat 0)).counter? }
  | _ => none

end LintResult

end SpecWording
