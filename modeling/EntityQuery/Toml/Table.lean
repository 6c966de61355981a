import EntityQuery.Toml.Value

/-!
# Building tables

A document is built entry by entry. A header names the table that the following entries go to, and
makes the tables on the way to it. The name of an entry may be dotted; it then goes to a table
within that table.

Nothing may be defined twice. A table may get a header of its own once, if it only was on the way
to another table before; a dotted name may extend only a table that a dotted name made; values in
braces and brackets cannot be extended at all. On the way through the tables of a header in double
brackets the last one counts.
-/

namespace EntityQuery.Toml

/-! ## §1 Headers -/

/-- Change the entries of the table that a path leads to, making the tables on the way. -/
def updateAt (change : Entries → Option Entries) : List String → Entries → Option Entries
  | [], entries => change entries
  | name :: path, entries =>
    match entries.lookup name with
    | none => (updateAt change path []).map fun inner => entries.add name (.table .implied inner)
    | some (.table .inline _) => none
    | some (.table origin inner) =>
      (updateAt change path inner).map fun inner => entries.set name (.table origin inner)
    | some (.tables items) =>
      match items.getLast? with
      | none => none
      | some last =>
        (updateAt change path last).map fun last =>
          entries.set name (.tables (items.dropLast ++ [last]))
    | some _ => none

/-- Define a table by a header of its own. -/
def defineTable (name : String) (entries : Entries) : Option Entries :=
  match entries.lookup name with
  | none => some (entries.add name (.table .header []))
  | some (.table .implied inner) => some (entries.set name (.table .header inner))
  | some _ => none

/-- Add a table to those of headers in double brackets. -/
def addTable (name : String) (entries : Entries) : Option Entries :=
  match entries.lookup name with
  | none => some (entries.add name (.tables [[]]))
  | some (.tables items) => some (entries.set name (.tables (items ++ [[]])))
  | some _ => none

/-! ## §2 Entries -/

/-- Define a value whose name has not been used. -/
def define (name : String) (value : Toml) (entries : Entries) : Option Entries :=
  match entries.lookup name with
  | none => some (entries.add name value)
  | some _ => none

/-- Define a value under a dotted name: the names of tables within each other, and its own. -/
def defineDotted (name : String) (value : Toml) : List String → Entries → Option Entries
  | [], entries => define name value entries
  | step :: steps, entries =>
    match entries.lookup step with
    | none =>
      (defineDotted name value steps []).map fun inner => entries.add step (.table .dotted inner)
    | some (.table .dotted inner) =>
      (defineDotted name value steps inner).map fun inner =>
        entries.set step (.table .dotted inner)
    | some (.table .implied inner) =>
      if steps.isEmpty then none
      else
        (defineDotted name value steps inner).map fun inner =>
          entries.set step (.table .implied inner)
    | some (.tables items) =>
      match steps.isEmpty, items.getLast? with
      | false, some last =>
        (defineDotted name value steps last).map fun last =>
          entries.set step (.tables (items.dropLast ++ [last]))
      | _, _ => none
    | some _ => none

/-! ## §3 Documents -/

/-- What one line of a document says. -/
inductive Line
  /-- A header: the way to a table and its name. -/
  | header (path : List String) (name : String)
  /-- A header in double brackets. -/
  | item (path : List String) (name : String)
  /-- A value with its dotted name. -/
  | entry (steps : List String) (name : String) (value : Toml)

/-- What was built so far: all entries, and the path to the table that entries go to. -/
structure Building where
  entries : Entries := []
  current : List String := []

/-- Build on by one line. -/
def Building.next (b : Building) : Line → Option Building
  | .header path name =>
    (updateAt (defineTable name) path b.entries).map fun entries => ⟨entries, path ++ [name]⟩
  | .item path name =>
    (updateAt (addTable name) path b.entries).map fun entries => ⟨entries, path ++ [name]⟩
  | .entry steps name value =>
    (updateAt (defineDotted name value steps) b.current b.entries).map fun entries =>
      { b with entries }

def ofLines? (lines : List Line) : Option Entries :=
  (lines.foldlM Building.next {}).map (·.entries)

def inlineTable? (entries : List ((List String × String) × Toml)) : Option Toml :=
  (entries.foldlM (fun table ((steps, name), value) => defineDotted name value steps table) []).map
    (.table .inline)

end EntityQuery.Toml
