/-!
# Command-line interfaces

An interface lists what a command line may say: subcommands, their arguments, and arguments that all
of them share. Reading a command line and writing the help text both go by this list.
-/

namespace SpecWording.Command

/-- One of the values that an option may have. -/
structure Choice where
  value : String
  help : String

/-- A flag, an option with a value, or a value without any name in front of it. -/
structure Argument where
  name : String
  help : String
  short : Option Char := none
  /-- Whether the name stands in the command line, behind two hyphens. -/
  named : Bool := true
  /-- What stands for the value in messages; a flag has none. -/
  placeholder : Option String := none
  /-- All values that are accepted, or none for any value. -/
  choices : List Choice := []
  default : Option String := none
  mayBeEmpty : Bool := true
  mayRepeat : Bool := false

structure Subcommand where
  name : String
  help : String
  arguments : List Argument := []

structure Interface where
  name : String
  version : String
  help : String
  /-- Arguments of every subcommand, which may also stand in front of it. -/
  shared : List Argument
  subcommands : List Subcommand

namespace Argument

/-- How messages refer to an argument. -/
def usage (argument : Argument) : String :=
  let dots := if argument.mayRepeat then "..." else ""
  match argument.named, argument.placeholder with
  | true, some placeholder => s!"--{argument.name} <{placeholder}>"
  | true, none => s!"--{argument.name}"
  | false, some placeholder => s!"[{placeholder}]{dots}"
  | false, none => s!"[{argument.name}]{dots}"

end Argument

namespace Interface

def find? (interface : Interface) (name : String) : Option Subcommand :=
  interface.subcommands.find? (·.name == name)

/-- The subcommand that shows the help text of others. -/
def helper : Subcommand where
  name := "help"
  help := "Print this message or the help of the given subcommand(s)"
  arguments := [{
    name := "subcommand", help := "Print help for the subcommand(s)", named := false
    placeholder := some "COMMAND", mayRepeat := true }]

/-- All subcommands, the one for help included. -/
def commands (interface : Interface) : List Subcommand := interface.subcommands ++ [helper]

def helpFlag : Argument where
  name := "help"
  help := "Print help"
  short := some 'h'

def versionFlag : Argument where
  name := "version"
  help := "Print version"
  short := some 'V'

/-- All arguments that may stand behind a subcommand. -/
def argumentsOf (interface : Interface) (subcommand : Subcommand) : List Argument :=
  subcommand.arguments ++ interface.shared

end Interface

end SpecWording.Command
