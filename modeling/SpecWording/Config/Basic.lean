import SpecWording.Path
import SpecWording.Report.Violation
import SpecWording.Toml.Value

/-!
# Configurations

What a configuration says, with the defaults for what it leaves open.
-/

namespace SpecWording

/-- What a configuration says about one rule. -/
structure RuleSettings where
  enabled : Option Bool := none
  severity : Option Severity := none
  /-- All entries but those two, which only the rule itself understands. -/
  options : List (String × Toml.Value) := []
  deriving Repr, Inhabited

/-- Which files are analyzed. -/
structure FileSettings where
  root : Path := ⟨"."⟩
  excluded : List String := ["**/vendor/**"]
  included : List String := ["**/*_spec.rb"]
  respectGitignore : Bool := true
  deriving DecidableEq, Repr, Inhabited

structure Config where
  failOn : Option Severity := none
  files : FileSettings := {}
  rules : List (String × RuleSettings) := []
  deriving Repr, Inhabited

namespace Config

def settings? (config : Config) (rule : String) : Option RuleSettings := config.rules.lookup rule

/-- A rule runs unless the configuration disables it. -/
def isEnabled (config : Config) (rule : String) : Bool :=
  ((config.settings? rule).bind (·.enabled)).getD true

/-- The severity that takes the place of the rule's own. -/
def severity? (config : Config) (rule : String) : Option Severity :=
  (config.settings? rule).bind (·.severity)

/-- The severity from which on an uncorrected violation makes a run fail. -/
def threshold (config : Config) : Severity := config.failOn.getD .warning

end Config

end SpecWording
