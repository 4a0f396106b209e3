import SpecWording.Command.Invocation
import SpecWording.Path

/-!
# The command line of the linter
-/

namespace SpecWording.Command

inductive Format where
  | text
  | json
  | compact
  deriving DecidableEq, Repr, Inhabited

namespace Format

def name : Format → String
  | text => "text"
  | json => "json"
  | compact => "compact"

def help : Format → String
  | text => "Human-readable text output with source snippets"
  | json => "JSON output"
  | compact => "One-line-per-violation compact format"

def all : List Format := [text, json, compact]

def ofName? (name : String) : Option Format := all.find? (·.name == name)

end Format

/-! ## What can be said -/

def verboseFlag : Argument where
  name := "verbose"
  help := "Enable verbose output"
  short := some 'v'

def configOption : Argument where
  name := "config"
  help := "Path to configuration file"
  short := some 'c'
  placeholder := some "CONFIG"
  mayBeEmpty := false

def pathArgument : Argument where
  name := "path"
  help := "Directory or file to analyze (default: \x60[analyzer] root\x60 from the config, else the " ++
    "current directory)"
  named := false
  placeholder := some "PATH"
  mayBeEmpty := false

def formatOption : Argument where
  name := "format"
  help := "Output format"
  short := some 'f'
  placeholder := some "FORMAT"
  choices := Format.all.map fun format => ⟨format.name, format.help⟩
  default := some Format.text.name

def fixFlag : Argument where
  name := "fix"
  help := "Rewrite offending descriptions in place"

def rulesOption : Argument where
  name := "rules"
  help := "Only run specific rules (comma-separated names or codes)"
  placeholder := some "RULES"

def excludeOption : Argument where
  name := "exclude"
  help := "Exclude patterns (can be specified multiple times)"
  short := some 'e'
  placeholder := some "EXCLUDE"
  mayRepeat := true

def forceFlag : Argument where
  name := "force"
  help := "Overwrite existing config"

def checkCommand : Subcommand where
  name := "check"
  help := "Run lint checks"
  arguments := [pathArgument, formatOption, fixFlag, rulesOption, excludeOption]

def rulesCommand : Subcommand where
  name := "list-rules"
  help := "List available rules"

def initCommand : Subcommand where
  name := "init"
  help := "Initialize configuration file"
  arguments := [forceFlag]

def linter : Interface where
  name := "wording-lint"
  version := "0.1.0"
  help := "CLI tool for wording-lint"
  shared := [verboseFlag, configOption]
  subcommands := [checkCommand, rulesCommand, initCommand]

/-! ## What was said -/

structure CheckOptions where
  /-- The directory or file to analyze; without one the configuration's root is analyzed. -/
  path : Option Path := none
  /-- The configuration file that the user names. -/
  config : Option Path := none
  format : Format := .text
  fix : Bool := false
  /-- Names and codes of the rules to run, with commas between them. -/
  rules : Option String := none
  excluded : List String := []
  deriving Repr, Inhabited

inductive Request where
  | check (options : CheckOptions)
  | listRules
  | init (force : Bool)
  deriving Repr, Inhabited

namespace Given

def value? (given : Given) (argument : Argument) : Option String := given.lookup argument.name

def has (given : Given) (argument : Argument) : Bool := (value? given argument).isSome

/-- All values of an argument that may be repeated. -/
def values (given : Given) (argument : Argument) : List String :=
  given.filterMap fun (name, value) => if name == argument.name then some value else none

end Given

namespace Request

open Given

def checkOptions (given : Given) : CheckOptions where
  path := (value? given pathArgument).map Path.mk
  config := (value? given configOption).map Path.mk
  format := ((value? given formatOption).bind Format.ofName?).getD .text
  fix := has given fixFlag
  rules := value? given rulesOption
  excluded := values given excludeOption

def ofGiven (subcommand : String) (given : Given) : Request :=
  if subcommand == checkCommand.name then .check (checkOptions given)
  else if subcommand == rulesCommand.name then .listRules
  else .init (has given forceFlag)

end Request

end SpecWording.Command
