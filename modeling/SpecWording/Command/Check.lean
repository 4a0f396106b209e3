import SpecWording.Analysis.Run
import SpecWording.Command.Program
import SpecWording.Command.Work
import SpecWording.Config.Source
import SpecWording.Ruby.Program
import SpecWording.Text.Character
import SpecWording.Wording.ExampleRule

/-!
# Preparing a check

From the options and the configuration comes the analyzer that a check runs. Where the user names no
path the configuration's root is analyzed, and a relative one is meant from the directory of the
configuration file.
-/

namespace SpecWording

namespace Config

/-- The configuration with its root seen from where its file is. -/
def anchored (config : Config) (source : ConfigSource) : Config :=
  if config.files.root.isAbsolute then config
  else match source.path?.bind Path.parent? with
    | some directory =>
      { config with files := { config.files with root := directory.join config.files.root } }
    | none => config

end Config

namespace Command.CheckOptions

/-- Where the search for the project's configuration starts: at the path, or where a file is. -/
def start (options : CheckOptions) (tree : FileTree) (directory : Place) : Path :=
  match options.path with
  | none => ⟨"."⟩
  | some path => if tree.isFile directory path then path.parent?.getD ⟨""⟩ else path

def source (options : CheckOptions) (tree : FileTree) (environment : Environment) : ConfigSource :=
  .resolve tree environment (options.start tree environment.workingDirectory) options.config

/-- Reads the configuration; the use of a shared one is logged. -/
def readConfig (options : CheckOptions) (tree : FileTree) (environment : Environment) :
    Work Config := do
  let source := options.source tree environment
  if let .shared path := source then
    Work.note (.info s!"Using global config: {path.text}")
  let config ← .ofExcept (.config (source.path?.getD ⟨""⟩))
    (source.load tree environment.workingDirectory)
  return if options.path.isNone then config.anchored source else config

/-- The names and codes of the rules to run. -/
def ruleNames (list : String) : List String :=
  (Text.fields ',' list.toList).map fun name => String.ofList (Text.trim name)

/-- The rules that the list names, or all of them without a list; unknown names are logged. -/
def selectRules (options : CheckOptions) (rules : List Rule) : Work (List Rule) := do
  match options.rules with
  | none => return rules
  | some list =>
    let names := ruleNames list
    for name in names do
      if (Wording.findRule? name).isNone then Work.note (.warn s!"Unknown rule: {name}")
    return rules.filter fun rule => names.contains rule.name || names.contains rule.code

def request (options : CheckOptions) (config : Config) (rules : List Rule) : AnalysisRequest where
  root := options.path
  language := some ruby
  rules := rules
  excluded := options.excluded
  config := some config
  fix := options.fix

/-- The analyzer that the check runs. -/
def prepare (options : CheckOptions) (tree : FileTree) (environment : Environment) :
    Work Analyzer := do
  let config ← options.readConfig tree environment
  let configured ← .ofOption .ruleOptions (Wording.configuredRules? config)
  let rules ← options.selectRules configured
  let analyzer ← .ofExcept .analyzer
    ((options.request config rules).build environment.workingDirectory.path)
  Work.note (.info s!"Analyzing {analyzer.root.text} with {analyzer.rules.length} rule(s)")
  return analyzer

end Command.CheckOptions

end SpecWording
