import SpecWording.Json.Token

/-!
# Reading JSON

Tokens are read one by one into a stack of the containers that are still open, so depth costs
nothing. `parse?` gives the one value of a text. The second half reads a value as a type: a string,
a counter, or the named members of a record, which may also be given as an array in their order.
-/

namespace SpecWording.Json

/-- An open container with the items it has so far, the latest first. -/
inductive Frame where
  | array (items : List Json)
  | object (members : List (List Char × Json))
  | member (members : List (List Char × Json)) (name : List Char)
  deriving Repr

/-- What may come next. -/
inductive Expect where
  | value
  | itemOrClose
  | item
  | nameOrClose
  | name
  | colon
  | commaOrClose
  | nothing
  deriving DecidableEq, Repr

structure Reader where
  stack : List Frame
  expect : Expect
  result : Json
  deriving Repr

namespace Reader

/-- Takes a whole value into the innermost open container. -/
def put (stack : List Frame) (value : Json) : Option Reader :=
  match stack with
  | [] => some ⟨[], .nothing, value⟩
  | .array items :: rest => some ⟨.array (value :: items) :: rest, .commaOrClose, .null⟩
  | .member members name :: rest =>
    some ⟨.object ((name, value) :: members) :: rest, .commaOrClose, .null⟩
  | .object _ :: _ => none

def close (stack : List Frame) (token : Token) : Option Reader :=
  match stack, token with
  | .array items :: rest, .closeArray => put rest (.array items.reverse)
  | .object members :: rest, .closeObject => put rest (.object members.reverse)
  | _, _ => none

def value (stack : List Frame) : Token → Option Reader
  | .word value => put stack value
  | .quoted body => put stack (.string body)
  | .openArray => some ⟨.array [] :: stack, .itemOrClose, .null⟩
  | .openObject => some ⟨.object [] :: stack, .nameOrClose, .null⟩
  | _ => none

def name (stack : List Frame) (token : Token) : Option Reader :=
  match stack, token with
  | .object members :: rest, .quoted body => some ⟨.member members body :: rest, .colon, .null⟩
  | _, _ => none

def step (reader : Reader) (token : Token) : Option Reader :=
  let stack := reader.stack
  match reader.expect with
  | .value | .item => value stack token
  | .itemOrClose =>
    match token with
    | .closeArray => close stack token
    | _ => value stack token
  | .nameOrClose =>
    match token with
    | .closeObject => close stack token
    | _ => name stack token
  | .name => name stack token
  | .colon =>
    match token with
    | .colon => some { reader with expect := .value }
    | _ => none
  | .commaOrClose =>
    match token, stack with
    | .comma, .array _ :: _ => some { reader with expect := .item }
    | .comma, .object _ :: _ => some { reader with expect := .name }
    | _, _ => close stack token
  | .nothing => none

end Reader

/-- The value that a text spells, if it spells one and nothing else. -/
def parse? (text : String) : Option Json := do
  let tokens ← Token.ofText? text.toList
  let reader ← tokens.foldlM Reader.step ⟨[], .value, .null⟩
  if reader.expect = .nothing then some reader.result else none

/-! ## Reading a value as a type -/

def string? : Json → Option String
  | .string body => (Quoted.decode body).map String.ofList
  | _ => none

def bool? : Json → Option Bool
  | .bool value => some value
  | _ => none

def decimalValue (digits : List Char) : Nat :=
  digits.foldl (fun value c => value * 10 + (c.toNat - '0'.toNat)) 0

/-- What counters stay below: 2 to the 64. -/
def counterLimit : Nat := 0x10000000000000000

/-- A counter: digits alone, of a value below the limit. -/
def counter? : Json → Option Nat
  | .number literal =>
    if literal.all Char.isDigit ∧ decimalValue literal < counterLimit then
      some (decimalValue literal)
    else none
  | _ => none

def items? : Json → Option (List Json)
  | .array items => some items
  | _ => none

/-- A value that `null` stands in for. -/
def orNull? {α : Type} (read : Json → Option α) : Json → Option (Option α)
  | .null => some none
  | value => (read value).map some

/-- A member that a record type names; one that is `nullable` may be left out of an object. -/
structure Field where
  name : String
  nullable : Bool := false

/-- The values of the named members, in the order of the names. Each is given at most once. -/
def member? (members : List (String × Json)) (field : Field) : Option (Option Json) :=
  match members.filter (·.1 == field.name) with
  | [] => some (if field.nullable then some .null else none)
  | [(_, value)] => some (some value)
  | _ => none

/--
The values of a record's fields; `none` stands for one that was left out. An object's other members
do not matter, but every name in it must be readable. An array gives the fields from the first on.
-/
def record? (fields : List Field) : Json → Option (List (Option Json))
  | .object members => do
    let named ← members.mapM fun (name, value) => do
      return (String.ofList (← Quoted.decode name), value)
    fields.mapM (member? named)
  | .array items =>
    if items.length ≤ fields.length then
      some (items.map some ++ List.replicate (fields.length - items.length) none)
    else none
  | _ => none

end SpecWording.Json
