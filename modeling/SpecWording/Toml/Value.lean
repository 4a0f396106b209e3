import SpecWording.Decimal.Binary64

/-!
# TOML values and tables under construction

Dates and times are kept as the text they are written with in RFC 3339, which is all that is ever
asked of them. Tables keep their entries in the order in which they were made.

While a document is read, a table remembers how it came about: whether a header or brackets named
it, and whether it only stands on the way of a dotted key. That decides what may still be added.
A table named by a header takes no second header; one that a dotted key made takes no header at all;
and a dotted key adds to no table that was named, nor at its end to one that another header made.
-/

namespace SpecWording.Toml

open Decimal (Binary64)

inductive Value where
  | string (text : String)
  | integer (value : Int)
  | float (value : Binary64)
  | boolean (value : Bool)
  | datetime (text : String)
  | array (items : List Value)
  | table (entries : List (String × Value))
  deriving Repr, Inhabited

/-! ## Tables under construction -/

/-- A table under construction; `α` is the type of what its keys name. -/
structure Draft (α : Type) where
  /-- Whether nothing but longer paths has mentioned the table so far. -/
  implicit : Bool := false
  /-- Whether a dotted key made the table. -/
  dotted : Bool := false
  entries : List (String × α) := []
  deriving Repr, Inhabited

inductive Item where
  | value (value : Value)
  | table (draft : Draft Item)
  /-- Tables with the same header, the latest first. -/
  | tables (latest : Draft Item) (earlier : List (Draft Item))
  deriving Repr

namespace Draft

def find? {α : Type} (draft : Draft α) (key : String) : Option α := draft.entries.lookup key

/-- Sets what a key names, in the place of the key's old item if it had one. -/
def set {α : Type} (draft : Draft α) (key : String) (item : α) : Draft α :=
  if (draft.find? key).isSome then
    { draft with entries := draft.entries.map fun entry =>
        if entry.1 == key then (key, item) else entry }
  else { draft with entries := draft.entries ++ [(key, item)] }

/-- Changes the table at the end of a path, making the tables on the way that do not exist. -/
def update (dotted : Bool) (change : Draft Item → Option (Draft Item)) :
    List String → Draft Item → Option (Draft Item)
  | [], draft => change draft
  | key :: path, draft =>
    match draft.find? key with
    | none => do
      let inner ← update dotted change path { implicit := true, dotted := dotted }
      return draft.set key (.table inner)
    | some (.table inner) =>
      if dotted && !inner.implicit then none
      else do return draft.set key (.table (← update dotted change path inner))
    | some (.tables latest earlier) => do
      return draft.set key (.tables (← update dotted change path latest) earlier)
    | some (.value _) => none

/-- Gives a value to a key that has none; the path in front of the key is its dotted part. -/
def assign (path : List String) (key : String) (value : Value) : Draft Item → Option (Draft Item) :=
  update true (fun draft =>
    if draft.dotted == path.isEmpty || (draft.find? key).isSome then none
    else some (draft.set key (.value value))) path

/-- Opens the table that a header names. -/
def openTable (path : List String) (key : String) : Draft Item → Option (Draft Item) :=
  update false (fun draft =>
    match draft.find? key with
    | none => some (draft.set key (.table {}))
    | some (.table inner) =>
      if inner.implicit && !inner.dotted then
        some (draft.set key (.table { inner with implicit := false }))
      else none
    | _ => none) path

/-- Opens one more of the tables that a doubled header names. -/
def openNext (path : List String) (key : String) : Draft Item → Option (Draft Item) :=
  update false (fun draft =>
    match draft.find? key with
    | none => some (draft.set key (.tables {} []))
    | some (.tables latest earlier) => some (draft.set key (.tables {} (latest :: earlier)))
    | _ => none) path

/-- Changes the table that the latest header opened, which exists. -/
def inOpened (opened : List String) (change : Draft Item → Option (Draft Item)) :
    Draft Item → Option (Draft Item) := update false change opened

end Draft

namespace Item

mutual

def toValue : Item → Value
  | .value given => given
  | .table ⟨_, _, entries⟩ => .table (toEntries entries)
  | .tables ⟨_, _, entries⟩ earlier => .array (toTables earlier [.table (toEntries entries)])

def toEntries : List (String × Item) → List (String × Value)
  | [] => []
  | (key, item) :: entries => (key, item.toValue) :: toEntries entries

/-- Puts the tables, of which the latest comes first, in front of those that follow them. -/
def toTables : List (Draft Item) → List Value → List Value
  | [], later => later
  | ⟨_, _, entries⟩ :: earlier, later => toTables earlier (.table (toEntries entries) :: later)

end

end Item

namespace Draft

def toValue (draft : Draft Item) : Value := .table (Item.toEntries draft.entries)

end Draft

end SpecWording.Toml
