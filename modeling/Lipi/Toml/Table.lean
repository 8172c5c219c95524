import Lipi.Toml.Value

/-!
# TOML tables

While a document is read, a table remembers what made it, because that decides what may be added
to it: a header opens a table once, dotted keys only extend tables made by dotted keys, and a value
cannot be extended at all.
-/

namespace Lipi.Toml

/-- What made a table: a longer header, its own header, or dotted keys. -/
inductive Origin where
  | implied
  | header
  | dotted
  deriving DecidableEq, Repr

/-- What a key stands for while a document is read. -/
inductive Node where
  | value (value : Value)
  | table (origin : Origin) (entries : List (String × Node))
  | tables (items : List (List (String × Node)))

/-- The keys of a table. -/
abbrev Entries := List (String × Node)

namespace Entries

/-- Changes what a key stands for, or adds the key. -/
def set (entries : Entries) (key : String) (node : Node) : Entries :=
  if entries.any (·.1 = key) then
    entries.map fun (name, old) => if name = key then (name, node) else (name, old)
  else entries ++ [(key, node)]

/-- Changes the table that a header's keys lead to, and makes the tables on the way. Of several
tables under one key the last is meant. -/
def within (change : Entries → Option Entries) : List String → Entries → Option Entries
  | [], entries => change entries
  | key :: path, entries =>
    match entries.lookup key with
    | none => do
      let inner ← within change path []
      return entries.set key (.table .implied inner)
    | some (.table origin inner) => do
      let inner ← within change path inner
      return entries.set key (.table origin inner)
    | some (.tables items) => do
      let last ← within change path (← items.getLast?)
      return entries.set key (.tables (items.dropLast ++ [last]))
    | some (.value _) => none

/-- Opens the table of a header, which may only have been implied before. -/
def openTable (key : String) (entries : Entries) : Option Entries :=
  match entries.lookup key with
  | none => some (entries.set key (.table .header []))
  | some (.table .implied inner) => some (entries.set key (.table .header inner))
  | _ => none

/-- Adds a table to those under a key. -/
def addTable (key : String) (entries : Entries) : Option Entries :=
  match entries.lookup key with
  | none => some (entries.set key (.tables [[]]))
  | some (.tables items) => some (entries.set key (.tables (items ++ [[]])))
  | _ => none

/-- Gives a value to a dotted key. -/
def assign (node : Node) : List String → Entries → Option Entries
  | [], _ => none
  | [key], entries => if entries.any (·.1 = key) then none else some (entries.set key node)
  | key :: path, entries =>
    match entries.lookup key with
    | none => do
      let inner ← assign node path []
      return entries.set key (.table .dotted inner)
    | some (.table .dotted inner) => do
      let inner ← assign node path inner
      return entries.set key (.table .dotted inner)
    | some (.table .implied inner) =>
      -- A table that only a header implies may be passed through but not extended.
      if path.length = 1 then none
      else do
        let inner ← assign node path inner
        return entries.set key (.table .implied inner)
    | some (.tables items) =>
      if path.length = 1 then none
      else do
        let last ← assign node path (← items.getLast?)
        return entries.set key (.tables (items.dropLast ++ [last]))
    | _ => none

end Entries

mutual

/-- The value that a key stands for in the end. -/
def Node.toValue : Node → Value
  | .value value => value
  | .table _ entries => .table (Entries.toValues entries)
  | .tables items => .array (Entries.itemValues items)

def Entries.toValues : List (String × Node) → List (String × Value)
  | [] => []
  | (key, node) :: rest => (key, node.toValue) :: Entries.toValues rest

def Entries.itemValues : List (List (String × Node)) → List Value
  | [] => []
  | item :: rest => .table (Entries.toValues item) :: Entries.itemValues rest

end

end Lipi.Toml
