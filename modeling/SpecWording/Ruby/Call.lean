import SpecWording.Ruby.Argument

/-!
# Calls

A name takes arguments in parentheses, arguments behind a blank, or none, and then perhaps a block.
Whatever has a value may be the receiver of the next call. Only a call without parentheses and
without a block is no receiver, for what follows belongs to its last argument.
-/

namespace SpecWording.Ruby

open Ruby.Parser

/-- An expression together with whether a call or an index may follow it. -/
structure Reach where
  tree : Tree
  extends? : Bool

namespace Grammar

/-- Ends a call, with its block if there is one. -/
def closeCall (g : Grammar) (ctx : Context) (start : Nat) (parts : List Tree) (bare : Bool) :
    Parser Reach := do
  match ← optional (g.blockAfter ctx) with
  | some block => return ⟨← close "call" start (parts ++ [block.withRole .block]), true⟩
  | none => return ⟨← close "call" start parts, !bare⟩

/-- What a name takes; a name that takes nothing stands for itself if it has no receiver. -/
def callFrom (g : Grammar) (ctx : Context) (start : Nat) (parts : List Tree)
    (alone? : Option Tree) : Parser Reach := do
  if ← comes "(" then
    let arguments ← g.parenthesized
    g.closeCall ctx start (parts ++ [arguments.withRole .arguments]) false
  else match ← optional (g.commandArguments ctx) with
    | some arguments => g.closeCall ctx start (parts ++ [arguments.withRole .arguments]) true
    | none =>
      match alone? with
      | none => g.closeCall ctx start parts false
      | some alone =>
        match ← optional (g.blockAfter ctx) with
        | some block => return ⟨← close "call" start (parts ++ [block.withRole .block]), true⟩
        | none => return ⟨alone, true⟩

/-- A name that is no keyword; with a mark it is always a call. -/
def named (g : Grammar) (ctx : Context) : Parser Reach := do
  let kind ← nameKind
  let name ← token kind plainWord
  if takesMark (← rest) then
    skip 1
    let marked : Tree := { name with range := ⟨name.start, ← position⟩ }
    g.callFrom ctx name.start [marked.withRole .method] none
  else g.callFrom ctx name.start [name.withRole .method] (some name)

/-- The name of a method behind a period; any word will do. -/
def methodName : Parser Tree := do
  if (← rest).head?.any isWordStart then token (← nameKind) methodWord
  else token "operator" operatorName

/-- A call of what stands before a period. -/
def sent (g : Grammar) (ctx : Context) (receiver : Tree) : Parser Reach := do
  let parts := [receiver.withRole .receiver]
  g.continuation
  if ← comes "&" then skip 2 else skip 1
  g.layout
  if ← comes "(" then g.callFrom ctx receiver.start parts none
  else
    let name ← methodName
    g.callFrom ctx receiver.start (parts ++ [name.withRole .method]) none

/-- A constant behind two colons, which may also be the name of a method. -/
def qualified (g : Grammar) (ctx : Context) (receiver : Tree) : Parser Reach := do
  literal "::"
  if ← comes "(" then g.callFrom ctx receiver.start [receiver.withRole .receiver] none
  else
    let constant ← comesConstant
    let name ← methodName
    let parts := [receiver.withRole .receiver, name.withRole .method]
    if constant && !(← comes "(") then
      match ← optional (g.commandArguments ctx) with
      | some arguments =>
        g.closeCall ctx receiver.start (parts ++ [arguments.withRole .arguments]) true
      | none => return ⟨← close "scope_resolution" receiver.start [receiver, name], true⟩
    else g.callFrom ctx receiver.start parts none

/-- An index in brackets. -/
def indexed (g : Grammar) (receiver : Tree) : Parser Reach := do
  g.blanks
  char '['
  let items ← g.bracketed ']' (g.argument .bracket)
  return ⟨← close "element_reference" receiver.start (receiver :: items), true⟩

/-- Calls and indices behind an expression, as many as there are. -/
def chained (g : Grammar) (ctx : Context) (first : Reach) : Parser Tree := do
  let last ← iterated (fun reach => do
    check reach.extends?
    g.qualified ctx reach.tree <|> g.indexed reach.tree <|> g.sent ctx reach.tree) g.budget first
  return last.tree

end Grammar

end SpecWording.Ruby
