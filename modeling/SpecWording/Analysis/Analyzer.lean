import SpecWording.Files.Tree
import SpecWording.Glob
import SpecWording.Lint.Check
import SpecWording.Syntax.Node

/-!
# Analyzers

An analyzer is everything a run needs but the files: the language, the rules, the configuration and
the root. It is built from a request, in which the caller's globs come before the configuration's.
-/

namespace SpecWording

/-- Why an analysis fails. -/
inductive AnalysisError where
  | unreadable (cause : ReadError)
  | unparsable (path : Path) (reason : String)
  | badGlob (cause : Glob.Error)
  /-- The walk over the tree fails, for a reason given as a text. -/
  | walk (reason : String)
  | noLanguage
  deriving DecidableEq, Repr, Inhabited

namespace AnalysisError

def message : AnalysisError → String
  | unreadable cause => s!"IO error: {cause.message}"
  | unparsable path reason => s!"Parse error in {path.text}: {reason}"
  | badGlob cause => s!"Invalid glob pattern: {cause.message}"
  | walk reason => s!"File discovery failed: {reason}"
  | noLanguage => "No source parser configured"

end AnalysisError

structure AnalysisRequest where
  root : Option Path := none
  language : Option Language := none
  rules : List Rule := []
  excluded : List String := []
  included : List String := []
  config : Option Config := none
  fix : Bool := false
  /-- Whether a file that cannot be parsed ends the analysis. -/
  strict : Bool := false

structure Analyzer where
  /-- The directory or the file to analyze, as an absolute path. -/
  root : Path
  language : Language
  rules : List Rule
  excluded : List Glob
  included : List Glob
  config : Config
  fix : Bool
  strict : Bool

namespace AnalysisRequest

/-- The root: the request's, or else the configuration's. -/
def rootPath (request : AnalysisRequest) : Path :=
  (request.root <|> request.config.map (·.files.root)).getD ⟨"."⟩

def parseGlobs (texts : List String) : Except AnalysisError (List Glob) :=
  (Glob.parseAll texts).mapError .badGlob

def build (request : AnalysisRequest) (workingDirectory : Path) :
    Except AnalysisError Analyzer := do
  let some language := request.language | throw .noLanguage
  let files := request.config.map (·.files)
  let excluded ← parseGlobs (request.excluded ++ ((files.map (·.excluded)).getD []))
  let included ← parseGlobs (request.included ++ ((files.map (·.included)).getD []))
  return {
    root := workingDirectory.join request.rootPath
    language := language
    rules := request.rules
    excluded := excluded
    included := included
    config := request.config.getD {}
    fix := request.fix
    strict := request.strict }

end AnalysisRequest

namespace Analyzer

/-- Checks the text of one file. -/
def checkText (analyzer : Analyzer) (path : Path) (content : String) :
    Except AnalysisError SourceReport :=
  match analyzer.language.parse content with
  | .error reason => .error (.unparsable path reason)
  | .ok tree => .ok (checkTree analyzer.rules analyzer.config analyzer.fix
      (SourceFile.inProject analyzer.root path content) tree)

def handles (analyzer : Analyzer) (path : Path) : Bool :=
  path.extension?.any analyzer.language.extensions.contains

def relative (analyzer : Analyzer) (path : Path) : Path := (path.below? analyzer.root).getD path

/-- Whether a glob excludes a file, by its path below the root or by its whole path. -/
def excludes (analyzer : Analyzer) (path : Path) : Bool :=
  analyzer.excluded.any fun glob =>
    glob.accepts (analyzer.relative path).text || glob.accepts path.text

/-- Whether the globs include a file; no globs include every file. -/
def includes (analyzer : Analyzer) (path : Path) : Bool :=
  analyzer.included.isEmpty ||
    analyzer.included.any fun glob => glob.accepts (analyzer.relative path).text

def wants (analyzer : Analyzer) (path : Path) : Bool :=
  analyzer.handles path && !analyzer.excludes path && analyzer.includes path

end Analyzer

end SpecWording
