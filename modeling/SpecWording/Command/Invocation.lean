import SpecWording.Command.Interface

/-!
# Reading a command line

Words are read from left to right. A word with hyphens names an option, and its value stands in the
same word or is the next one. A value that is a word of its own is taken in only when the next
argument begins, so of two mistakes an unknown name is reported before a wrong value in front of it.
Asking for help or for the version ends the reading.
-/

namespace SpecWording.Command

/-- What is wrong with a command line. -/
inductive UsageError where
  | unknownArgument (text : String)
  | unknownSubcommand (text : String)
  | missingSubcommand (program : String)
  | missingValue (argument : Argument)
  | wrongValue (value : String) (argument : Argument)
  | unexpectedValue (value : String) (argument : Argument)
  | repeated (argument : Argument)

namespace UsageError

def message : UsageError → String
  | unknownArgument text => s!"unexpected argument '{text}' found"
  | unknownSubcommand text => s!"unrecognized subcommand '{text}'"
  | missingSubcommand program => s!"'{program}' requires a subcommand but one was not provided"
  | missingValue argument =>
    s!"a value is required for '{argument.usage}' but none was supplied"
  | wrongValue value argument => s!"invalid value '{value}' for '{argument.usage}'"
  | unexpectedValue value argument =>
    s!"unexpected value '{value}' for '{argument.usage}' found; no more were expected"
  | repeated argument => s!"the argument '{argument.usage}' cannot be used multiple times"

end UsageError

/-- The arguments that were given, in order; a flag has the empty value. -/
abbrev Given := List (String × String)

/-- Why reading ends before the last word. -/
inductive Halt where
  | error (cause : UsageError)
  | help (inFull : Bool)
  | version

/-- What has been read of one subcommand, or of what stands in front of it. -/
structure Reading where
  given : Given := []
  /-- An argument that has not been taken in, with its value if that was read. -/
  pending : Option (Argument × Option String) := none
  /-- Arguments without a name that are still free. -/
  free : List Argument
  /-- After two hyphens every word is a value. -/
  plain : Bool := false

namespace Reading

/-- Whether an argument accepts a value. -/
def accepted (argument : Argument) (value : String) : Except UsageError Unit :=
  if value.isEmpty && (!argument.mayBeEmpty || !argument.choices.isEmpty) then
    .error (.missingValue argument)
  else if argument.choices.isEmpty || argument.choices.any (·.value == value) then .ok ()
  else .error (.wrongValue value argument)

/-- Takes one argument in. -/
def add (reading : Reading) (argument : Argument) (value : String) : Except UsageError Reading := do
  if !argument.mayRepeat && (reading.given.lookup argument.name).isSome then
    throw (.repeated argument)
  accepted argument value
  return { reading with given := reading.given ++ [(argument.name, value)], pending := none }

/-- Takes in the argument that is pending. -/
def settle (reading : Reading) : Except UsageError Reading :=
  match reading.pending with
  | none => .ok reading
  | some (argument, none) => .error (.missingValue argument)
  | some (argument, some value) => reading.add argument value

def awaitsValue (reading : Reading) : Bool :=
  match reading.pending with
  | some (_, none) => true
  | _ => false

def flag (reading : Reading) (argument : Argument) : Except UsageError Reading := do
  (← reading.settle).add { argument with mayBeEmpty := true } ""

/-- An option begins: with its value in the same word, or with the next word as its value. -/
def option (reading : Reading) (argument : Argument) (value : Option String) :
    Except UsageError Reading := do
  let reading ← reading.settle
  match value with
  | some value => reading.add argument value
  | none => return { reading with pending := some (argument, none) }

/-- Ends the reading, unless the argument before lacks something. -/
def halt (reading : Reading) (reason : Halt) : Except Halt Reading :=
  match reading.settle with
  | .ok _ => .error reason
  | .error cause => .error (.error cause)

/-- A word with two hyphens, given without them. -/
def long (arguments : List Argument) (versioned : Bool) (reading : Reading) (word : List Char) :
    Except Halt Reading :=
  let name := String.ofList (word.takeWhile (· != '='))
  let value := match word.dropWhile (· != '=') with
    | _ :: value => some (String.ofList value)
    | [] => none
  match arguments.find? fun argument => argument.named && argument.name == name with
  | some argument =>
    match argument.placeholder, value with
    | some _, value => (reading.option argument value).mapError .error
    | none, some value => .error (.error (.unexpectedValue value argument))
    | none, none => (reading.flag argument).mapError .error
  | none =>
    let halt (flag : Argument) (reason : Halt) :=
      match value with
      | some value => .error (.error (.unexpectedValue value flag))
      | none => reading.halt reason
    if name == Interface.helpFlag.name then halt Interface.helpFlag (.help true)
    else if name == Interface.versionFlag.name && versioned then halt Interface.versionFlag .version
    else .error (.error (.unknownArgument ("--" ++ name)))

/-- The letters of a word with one hyphen; an option takes the rest of them as its value. -/
def shorts (arguments : List Argument) (versioned : Bool) (reading : Reading) :
    List Char → Except Halt Reading
  | [] => .ok reading
  | c :: cs =>
    match arguments.find? (·.short == some c) with
    | some argument =>
      match argument.placeholder with
      | some _ =>
        let value := match cs with
          | [] => none
          | '=' :: value => some (String.ofList value)
          | value => some (String.ofList value)
        (reading.option argument value).mapError .error
      | none =>
        match reading.flag argument with
        | .ok reading => shorts arguments versioned reading cs
        | .error error => .error (.error error)
    | none =>
      if Interface.helpFlag.short == some c then reading.halt (.help false)
      else if Interface.versionFlag.short == some c && versioned then reading.halt .version
      else .error (.error (.unknownArgument (String.ofList ['-', c])))

/-- A word that is no option: the value of the option before it, or an argument of its own. -/
def value (reading : Reading) (word : String) : Except UsageError Reading := do
  match reading.pending, reading.plain with
  | some (argument, none), false => return { reading with pending := some (argument, some word) }
  | _, _ =>
    match reading.free with
    | argument :: free =>
      return { ← reading.settle with pending := some (argument, some word), free }
    | [] => throw (.unknownArgument word)

/-- Reads one word behind a subcommand. -/
def word (arguments : List Argument) (versioned : Bool) (reading : Reading) (word : String) :
    Except Halt Reading :=
  if reading.plain then (reading.value word).mapError .error
  else match word.toList with
    | ['-', '-'] => .ok { reading with plain := true }
    | '-' :: '-' :: cs => reading.long arguments versioned cs
    | '-' :: c :: cs => reading.shorts arguments versioned (c :: cs)
    | _ => (reading.value word).mapError .error

end Reading

/-- What a command line asks for. -/
inductive Invocation where
  | run (subcommand : String) (given : Given)
  /-- The help text of a subcommand or of the whole program. -/
  | help (subcommand : Option Subcommand) (inFull : Bool)
  | version
  /-- Nothing at all was said. -/
  | silent
  | wrong (error : UsageError)

namespace Invocation

def ofHalt (subcommand : Option Subcommand) : Halt → Invocation
  | .error cause => .wrong cause
  | .help inFull => .help subcommand inFull
  | .version => .version

/-- What stands in front of a subcommand counts unless it is said again behind it. -/
def combine (front back : Given) : Given :=
  back ++ front.filter fun (name, _) => (back.lookup name).isNone

/-- Reads all words behind a subcommand. -/
def ofArguments (interface : Interface) (front : Reading) (subcommand : Subcommand)
    (words : List String) : Invocation :=
  let arguments := interface.argumentsOf subcommand
  let start : Reading := { free := subcommand.arguments.filter (!·.named) }
  match words.foldlM (Reading.word arguments false) start with
  | .error halt => ofHalt (some subcommand) halt
  | .ok back =>
    match back.settle, front.settle with
    | .ok back, .ok front => .run subcommand.name (combine front.given back.given)
    | .error error, _ | _, .error error => .wrong error

/-- The help text that the words behind the subcommand for it ask for. -/
def ofHelp (interface : Interface) : List String → Invocation
  | [] => .help none true
  | word :: words =>
    match interface.commands.find? (·.name == word) with
    | none => .wrong (.unknownSubcommand word)
    | some subcommand =>
      match words with
      | [] => .help (some subcommand) true
      | next :: _ => .wrong (.unknownSubcommand next)

/-- What is wrong with a word in the place of a subcommand. -/
def misplaced (interface : Interface) (front : Reading) (word : String) : UsageError :=
  if front.plain && (interface.commands.any (·.name == word)) then .unknownArgument word
  else .unknownSubcommand word

/-- Whether a word in front of the subcommand is an option, or says that only values follow. -/
def isOption (front : Reading) (word : String) : Bool :=
  !front.plain && word.startsWith "-" && word != "-"

/-- Reads the words up to the subcommand, and then those behind it. -/
def ofFront (interface : Interface) (front : Reading) : List String → Invocation
  | [] =>
    match front.settle with
    | .error error => .wrong error
    | .ok front =>
      if front.given.isEmpty then .silent else .wrong (.missingSubcommand interface.name)
  | word :: words =>
    if isOption front word || (front.awaitsValue && !front.plain) then
      match front.word interface.shared true word with
      | .ok front => ofFront interface front words
      | .error halt => ofHalt none halt
    else if front.plain then .wrong (misplaced interface front word)
    else if word == Interface.helper.name then ofHelp interface words
    else match interface.find? word with
      | some subcommand => ofArguments interface front subcommand words
      | none => .wrong (misplaced interface front word)

def ofWords (interface : Interface) (words : List String) : Invocation :=
  ofFront interface { free := [] } words

end Invocation

end SpecWording.Command
