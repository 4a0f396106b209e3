import SpecWording.Main
import SpecWording.Proofs.Wording.Autocorrection
import SpecWording.Proofs.Wording.Delimiters
import SpecWording.Proofs.Wording.Negation
import SpecWording.Proofs.Wording.Relapse
import SpecWording.Proofs.Lint.Marking
import SpecWording.Proofs.Analysis.Writes
import SpecWording.Proofs.Analysis.Building
import SpecWording.Proofs.Analysis.Discovery
import SpecWording.Proofs.Analysis.WriteSet
import SpecWording.Proofs.Files.WellFormed
import SpecWording.Proofs.Ignore.Levels
import SpecWording.Proofs.Analysis.Enumeration
import SpecWording.Proofs.Analysis.ReportOrder
import SpecWording.Proofs.Analysis.FixedCount
import SpecWording.Proofs.Files.Following
import SpecWording.Proofs.Config.Nearest
import SpecWording.Proofs.Config.Detours
import SpecWording.Proofs.Ignore.Relocation
import SpecWording.Proofs.Path.Below
import SpecWording.Proofs.Analysis.Relocation
import SpecWording.Proofs.Command.Prepared
import SpecWording.Proofs.Command.SharedRoot
import SpecWording.Proofs.Wording.Repetition
import SpecWording.Proofs.Json.Quoted
import SpecWording.Proofs.Json.Words
import SpecWording.Proofs.Json.Roundtrip
import SpecWording.Proofs.Report.Encoding
import SpecWording.Proofs.Offsets.Checked
import SpecWording.Proofs.Offsets.Spans
import SpecWording.Proofs.Offsets.Check
import SpecWording.Proofs.Ruby.Nesting
import SpecWording.Proofs.Command.Snippet
import SpecWording.Proofs.Lint.Replacements
import SpecWording.Proofs.Wording.OneChange
import SpecWording.Proofs.Offsets.Inside
import SpecWording.Proofs.Wording.FlaggedExamples
import SpecWording.Proofs.Report.Location
import SpecWording.Proofs.Syntax.SourceOrder
import SpecWording.Proofs.Ruby.Lowering
import SpecWording.Proofs.Ruby.Literals
import SpecWording.Proofs.Config.Priority
import SpecWording.Proofs.Wording.Configured
import SpecWording.Proofs.Analysis.Excluding
import SpecWording.Proofs.Syntax.Occurrences
import SpecWording.Proofs.Wording.TableOptions
