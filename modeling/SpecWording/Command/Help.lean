import SpecWording.Command.Interface

/-!
# Help texts

A help text lists commands and arguments in two columns. Where an argument has values with texts of
their own there is a longer form too, in which every text stands on lines below its argument.
-/

namespace SpecWording.Command

def padded (width : Nat) (text : String) : String :=
  text ++ String.ofList (List.replicate (width - text.length) ' ')

/-- A line of a list: what it is about, and what is said about it. -/
structure Item where
  term : String
  help : String
  /-- Added to the text in the shorter form. -/
  remarks : String := ""
  /-- Lines below the text in the longer form. -/
  details : List String := []

namespace Item

/-- The items in two columns. -/
def columns (items : List Item) : List String :=
  let width := items.foldl (fun width item => max width item.term.length) 0
  items.map fun item => s!"  {padded width item.term}  {item.help}{item.remarks}"

def indented (line : String) : String := "          " ++ line

def stack (item : Item) : List String :=
  s!"  {item.term}" :: indented item.help :: item.details

/-- The items with their texts below them, and an empty line between any two. -/
def stacked (items : List Item) : List String :=
  match items.map stack with
  | [] => []
  | first :: others => first ++ others.flatMap ("" :: ·)

/-- A list under a heading, and nothing for an empty list. -/
def titled (inFull : Bool) (title : String) (items : List Item) : List String :=
  match items with
  | [] => []
  | items => ["", title] ++ if inFull then stacked items else columns items

end Item

namespace Argument

/-- An argument as the help text shows it. -/
def term (argument : Argument) : String :=
  if argument.named then
    match argument.short with
    | some short => s!"-{short}, {argument.usage}"
    | none => s!"    {argument.usage}"
  else argument.usage

/-- The default and the possible values, behind the text. -/
def remarks (argument : Argument) : String :=
  let default := match argument.default with
    | some value => s!" [default: {value}]"
    | none => ""
  let choices := match argument.choices with
    | [] => ""
    | choices => " [possible values: " ++ ", ".intercalate (choices.map (·.value)) ++ "]"
  default ++ choices

/-- The possible values with their texts and the default, on lines of their own. -/
def details (argument : Argument) : List String :=
  let width := argument.choices.foldl (fun width choice => max width choice.value.length) 0
  let choices := match argument.choices with
    | [] => []
    | choices => ["", Item.indented "Possible values:"] ++ choices.map fun choice =>
        Item.indented ("- " ++ padded (width + 1) (choice.value ++ ":") ++ " " ++ choice.help)
  let default := match argument.default with
    | some value => [Item.indented "", Item.indented s!"[default: {value}]"]
    | none => []
  choices ++ default

def item (argument : Argument) : Item :=
  ⟨argument.term, argument.help, argument.remarks, argument.details⟩

/-- What options of one rank are listed by: the letter, or else the name. -/
def key (argument : Argument) : String :=
  match argument.short with
  | some short => toString short
  | none => argument.name

end Argument

namespace Interface

/-- Options keep the order of the list they come from; those of one rank go by their keys. -/
def optionsInOrder (lists : List (List Argument)) : List Argument :=
  let ranked := lists.flatMap fun list => (list.filter (·.named)).mapIdx fun rank option =>
    (rank, option)
  (ranked.mergeSort fun a b =>
    a.1 < b.1 || (a.1 == b.1 && decide (a.2.key ≤ b.2.key))).map (·.2)

/-- Whether the longer help text of a subcommand says more than the shorter one. -/
def hasDetails (subcommand : Subcommand) : Bool :=
  subcommand.arguments.any fun argument => !argument.choices.isEmpty

/-- The flag for help; where there are two forms, each one mentions the other. -/
def helpItem (detailed inFull : Bool) : Item :=
  let other :=
    if !detailed then ""
    else if inFull then " (see a summary with '-h')" else " (see more with '--help')"
  { helpFlag.item with help := helpFlag.help ++ other }

def text (lines : List String) : String := String.join (lines.map (· ++ "\n"))

/-- The help text of the whole program. -/
def overview (interface : Interface) : String :=
  let commands := interface.commands.map fun command =>
    (⟨command.name, command.help, "", []⟩ : Item)
  let options := (optionsInOrder [interface.shared]).map Argument.item ++
    [helpItem false false, versionFlag.item]
  text ([interface.help, "", s!"Usage: {interface.name} [OPTIONS] <COMMAND>"] ++
    Item.titled false "Commands:" commands ++ Item.titled false "Options:" options)

/-- The help text of the subcommand for help, which has no options. -/
def helperText (interface : Interface) : String :=
  let values := helper.arguments
  text ([helper.help, "", s!"Usage: {interface.name} {helper.name} " ++
    " ".intercalate (values.map Argument.usage)] ++
    Item.titled false "Arguments:" (values.map Argument.item))

/-- The help text of a subcommand, in the shorter or the longer form. -/
def subcommandText (interface : Interface) (subcommand : Subcommand) (inFull : Bool) : String :=
  let detailed := hasDetails subcommand
  let inFull := inFull && detailed
  let values := subcommand.arguments.filter (!·.named)
  let options := (optionsInOrder [subcommand.arguments, interface.shared]).map Argument.item
  text ([subcommand.help, "", " ".intercalate
      (["Usage:", interface.name, subcommand.name, "[OPTIONS]"] ++ values.map Argument.usage)] ++
    Item.titled inFull "Arguments:" (values.map Argument.item) ++
    Item.titled inFull "Options:" (options ++ [helpItem detailed inFull]))

/-- The help text of a subcommand or of the whole program. -/
def helpText (interface : Interface) (subcommand : Option Subcommand) (inFull : Bool) : String :=
  match subcommand with
  | none => interface.overview
  | some subcommand =>
    if subcommand.name == helper.name then interface.helperText
    else interface.subcommandText subcommand inFull

end Interface

end SpecWording.Command
