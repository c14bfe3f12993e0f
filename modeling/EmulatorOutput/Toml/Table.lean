import EmulatorOutput.Toml.Value

/-!
# Building tables

A table grows by keys and headers, and none may define what is defined already: no key twice, no
header twice, and nothing is added to a table in braces. Keys with dots pass through tables of
their own kind and those that headers only passed through, headers through all but tables in
braces; both pass through the last row of several.
-/

namespace EmulatorOutput.Toml

/-- A key: the tables it passes through and its own name. -/
structure Key where
  path : List String
  name : String
  deriving DecidableEq, Repr

namespace Key

/-- The key of one or more parts. -/
def ofParts? : List String → Option Key
  | [] => none
  | parts@(_ :: _) => some { path := parts.dropLast, name := parts.getLastD "" }

end Key

namespace Entries

def find? (name : String) (entries : Entries) : Option Value := entries.lookup name

/-- Replaces the value of a name that is present. -/
def replace (name : String) (value : Value) (entries : Entries) : Entries :=
  entries.map fun e => if e.1 == name then (name, value) else e

/-- Changes the table that a path leads to, and makes tables of the given mark on the way. The
change is told the mark of the table that it is made in. -/
def alter (mark : Mark) (change : Mark → Entries → Option Entries) :
    List String → Mark → Entries → Option Entries
  | [], here, entries => change here entries
  | name :: path, _, entries =>
    match find? name entries with
    | none => do
      let child ← alter mark change path mark []
      return entries ++ [(name, .table mark child)]
    | some (.table there child) =>
      if there = .closed ∨ mark = .dotted ∧ there = .opened then none
      else do
        let child ← alter mark change path there child
        return replace name (.table there child) entries
    | some (.tables rows) => do
      let last ← alter mark change path .opened (rows.getLastD [])
      return replace name (.tables (rows.dropLast ++ [last])) entries
    | some _ => none

/-- Adds a value. A name alone is not added to a table made by dotted keys, nor one with a path
to another. -/
def insert (key : Key) (value : Value) : Mark → Entries → Option Entries :=
  alter .dotted (fun mark entries =>
    if (mark == .dotted) == key.path.isEmpty then none
    else if (find? key.name entries).isSome then none
    else some (entries ++ [(key.name, value)])) key.path

def openTable (key : Key) : Mark → Entries → Option Entries :=
  alter .implied (fun _ entries =>
    match find? key.name entries with
    | none => some (entries ++ [(key.name, .table .opened [])])
    | some (.table .implied child) => some (replace key.name (.table .opened child) entries)
    | some _ => none) key.path

/-- Opens a further row of several tables. -/
def openRow (key : Key) : Mark → Entries → Option Entries :=
  alter .implied (fun _ entries =>
    match find? key.name entries with
    | none => some (entries ++ [(key.name, .tables [[]])])
    | some (.tables rows) => some (replace key.name (.tables (rows ++ [[]])) entries)
    | some _ => none) key.path

def ofPairs? (pairs : List (Key × Value)) : Option Entries :=
  pairs.foldlM (fun entries (key, value) => insert key value .opened entries) []

end Entries

end EmulatorOutput.Toml
