import SpecWording.Command.Work

/-!
# A new configuration file
-/

namespace SpecWording.Command.Init

def path : Path := ⟨"wording-lint.toml"⟩

/-- The lines of a configuration that says what holds by default, with advice on the rest. -/
def templateLines : List String := [
  "# wording-lint configuration",
  "",
  "# Uncorrected violations at or above this severity fail the check",
  "fail_on = \"warning\"",
  "",
  "[analyzer]",
  "# Root directory to analyze (default: current directory)",
  "# root = \"./spec\"",
  "",
  "# Files to analyze",
  "include = [\"**/*_spec.rb\"]",
  "",
  "# Glob patterns to exclude from analysis",
  "exclude = [",
  "    \"**/vendor/**\",",
  "]",
  "",
  "# Respect .gitignore files",
  "respect_gitignore = true",
  "",
  "[rules.example-wording]",
  "enabled = true",
  "# severity = \"error\"  # Override default severity",
  "",
  "# Words the autocorrector leaves untouched",
  "# IgnoredWords = [\"only\", \"really\"]",
  "",
  "# Direct replacements used by the autocorrector",
  "# [rules.example-wording.CustomTransform]",
  "# be = \"is\"",
  "# have = \"has\"",
  "# not = \"does not\""]

def template : String := String.join (templateLines.map (· ++ "\n"))

/-- Writes the template; a file that is there already is kept unless `force` is given. -/
def write (tree : FileTree) (directory : Place) (force : Bool) : Except Failure FileTree :=
  if tree.holds directory path && !force then .error (.configExists path)
  else (tree.writeText directory path template).mapError .unwritable

/-- What is said about the new file. -/
def advice : String :=
  s!"Created {path.text}\n\nNext steps:\n  1. Edit {path.text} to configure rules\n" ++
  "  2. Run: wording-lint check\n  3. Run: wording-lint check --fix\n"

end SpecWording.Command.Init
