import SpecWording.Config.Reader
import SpecWording.Files.Tree

/-!
# Configuration files

A configuration that the user names counts as it is, whether it exists or not. Otherwise the nearest
directory from the start upwards that has a configuration file gives the project's configuration,
then comes the user's shared one, and last the defaults.
-/

namespace SpecWording

inductive ConfigError where
  | unreadable (path : Path) (cause : ReadError)
  /-- A text that is no configuration, or options that are not what their rule wants. -/
  | malformed
  deriving DecidableEq, Repr, Inhabited

namespace ConfigError

/-- What is said about a configuration; the reasons why a text is none are not told apart. -/
def message : ConfigError → String
  | unreadable path cause => s!"Failed to read config file {path.text}: {cause.message}"
  | malformed => "Failed to parse config"

end ConfigError

namespace Config

def load (tree : FileTree) (directory : Place) (path : Path) : Except ConfigError Config :=
  match tree.readText directory path with
  | .error cause => .error (.unreadable path cause)
  | .ok text =>
    match parse? text with
    | some config => .ok config
    | none => .error .malformed

end Config

/-! ## Finding the configuration -/

/-- The directory of the user's shared configuration. -/
def Environment.sharedDirectory? (environment : Environment) : Option Path :=
  environment.configDirectory <|> environment.home.map (·.join ⟨".wording-lint"⟩)

/-- Where a configuration comes from. -/
inductive ConfigSource where
  | named (path : Path)
  | project (path : Path)
  | shared (path : Path)
  | defaults
  deriving DecidableEq, Repr, Inhabited

namespace ConfigSource

def path? : ConfigSource → Option Path
  | named path => some path
  | project path => some path
  | shared path => some path
  | defaults => none

/-- The names of a project's configuration file; the first one wins within a directory. -/
def fileNames : List Path := [⟨"wording-lint.toml"⟩, ⟨".wording-lint.toml"⟩]

def sharedFileName : Path := ⟨"config.toml"⟩

/-- The configuration file in a directory. -/
def fileIn? (tree : FileTree) (directory : Place) (path : Path) : Option Path :=
  (fileNames.map path.join).find? (tree.isFile directory)

/-- The configuration file in the nearest directory that has one, from a path upwards. -/
def projectFile? (tree : FileTree) (directory : Place) (start : Path) : Option Path :=
  start.ancestors.findSome? (fileIn? tree directory)

/-- The shared configuration file, if there is one. -/
def sharedFile? (tree : FileTree) (directory : Place) (shared : Option Path) : Option Path :=
  (shared.map (·.join sharedFileName)).filter (tree.isFile directory)

/-- The source for an absolute path to start at, with the directory of the shared configuration. -/
def find (tree : FileTree) (directory : Place) (start : Path) (named? shared? : Option Path) :
    ConfigSource :=
  match named? with
  | some path => named path
  | none =>
    match projectFile? tree directory start with
    | some path => project path
    | none =>
      match sharedFile? tree directory shared? with
      | some path => shared path
      | none => defaults

/-- The source for a path to start at, seen from where the command runs. -/
def resolve (tree : FileTree) (environment : Environment) (start : Path) (named? : Option Path) :
    ConfigSource :=
  let directory := environment.workingDirectory
  find tree directory ((start.absolute? directory.path).getD start) named?
    environment.sharedDirectory?

/-- Reads the configuration; without a file it is the default one. -/
def load (tree : FileTree) (directory : Place) (source : ConfigSource) :
    Except ConfigError Config :=
  match source.path? with
  | none => .ok {}
  | some path => Config.load tree directory path

end ConfigSource

end SpecWording
