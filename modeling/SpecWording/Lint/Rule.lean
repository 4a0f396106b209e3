import SpecWording.Report.Violation
import SpecWording.Syntax.Traversal

/-!
# Rules

A rule looks at one node of a file at a time and may report a violation. A rule that can correct
what it reports also gives the replacement for a violation. Neither can change anything.
-/

namespace SpecWording

/-- A file with the path that reports show. -/
structure SourceFile where
  path : Path
  content : String
  deriving DecidableEq, Repr, Inhabited

namespace SourceFile

/-- A file of a project: below the root its path is shown from there, elsewhere as it is. -/
def inProject (root path : Path) (content : String) : SourceFile :=
  match path.below? root with
  | some relative => ⟨if relative.text.isEmpty then path else relative, content⟩
  | none => ⟨path, content⟩

@[simp] theorem content_inProject (root path : Path) (content : String) :
    (inProject root path content).content = content := by
  unfold inProject
  split <;> rfl

def span? (file : SourceFile) (range : Syntax.ByteRange) : Option Text.Span :=
  Text.Span.ofRange? file.content range.start range.stop

def location (file : SourceFile) (span : Text.Span) : Location := .ofSpan file.path span

end SourceFile

structure Rule where
  name : String
  code : String
  description : String := ""
  /-- The severity of the rule's violations unless the rule or the configuration says otherwise. -/
  severity : Severity := .error
  fixable : Bool := false
  check : SourceFile → Syntax.Node → Option Violation
  correct : SourceFile → Violation → Option Replacement := fun _ _ => none

namespace Rule

/-- What the rule reports for every node of a tree, in the order of the walk. -/
def checkAll (rule : Rule) (file : SourceFile) (tree : Syntax.Node) : List Violation :=
  tree.walk.filterMap (rule.check file)

end Rule

end SpecWording
