import EntityQuery.Toml.Scalar
import EntityQuery.Toml.Table
import EntityQuery.Toml.Text

/-!
# Reading TOML

A document is read line by line: headers, entries and comments. Values in brackets and in braces
may extend over several lines and have a comma after the last item; so may an entry within braces,
but for its dotted name.

The recursion is bounded by fuel, for which the length of the document is enough.
-/

namespace EntityQuery.Toml

/-- How deeply brackets, braces and dotted names may nest. -/
def maxDepth : Nat := 80

/-! ## §1 Dotted names -/

/-- Read a dotted name of at most so many names: those on the way and the last one. -/
def readNames (fuel : Nat) : Nat → Reader (List String × String)
  | 0, _ => none
  | count + 1, cs => do
    let (name, rest) ← readName fuel cs
    match skipSpace rest with
    | '.' :: rest => do
      let ((steps, last), rest) ← readNames fuel count (skipSpace rest)
      return ((name :: steps, last), rest)
    | _ => return (([], name), rest)

/-- Read a dotted name: the names on the way and the last one. -/
def readPath (fuel : Nat) : Reader (List String × String) :=
  readNames fuel maxDepth

/-! ## §2 Values -/

/-- The character ends a value without quotes. -/
def endsScalar (c : Char) : Bool :=
  [' ', '\t', '\n', '\r', '#', '=', ',', '[', ']', '\x7b', '\x7d'].contains c

/-- Read a value without quotes. A date and a time of day may have a space between them. -/
def readScalar (cs : List Char) : Option (Toml × List Char) :=
  let first := cs.takeWhile (!endsScalar ·)
  let rest := cs.dropWhile (!endsScalar ·)
  let second := (rest.drop 1).takeWhile (!endsScalar ·)
  if rest.head? = some ' ' && isDateTime (first ++ ' ' :: second) then
    some (.moment, rest.drop (second.length + 1))
  else (scalar? first).map (·, rest)

/-- Read an entry: a dotted name, an equals sign and a value. What may stand around the sign is
skipped. -/
def readEntry (skip : List Char → List Char) (readValue : Reader Toml) (fuel : Nat) :
    Reader ((List String × String) × Toml) := fun cs => do
  let (path, rest) ← readPath fuel cs
  match skip rest with
  | '=' :: rest => do
    let (value, rest) ← readValue (skip rest)
    return ((path, value), rest)
  | _ => none

/-- Read items with commas between them, and perhaps one after the last, and the closing mark. -/
def readItems {α : Type} (closing : Char) (readItem : Reader α) : Nat → Reader (List α)
  | 0, _ => none
  | fuel + 1, cs =>
    match skipFiller cs with
    | [] => none
    | c :: rest =>
      if c = closing then some ([], rest)
      else do
        let (item, rest) ← readItem (c :: rest)
        match skipFiller rest with
        | ',' :: rest => do
          let (items, rest) ← readItems closing readItem fuel rest
          return (item :: items, rest)
        | d :: rest => if d = closing then return ([item], rest) else none
        | [] => none

/-- Read a value that is not in brackets or braces. -/
def readFlat (fuel : Nat) (cs : List Char) : Option (Toml × List Char) :=
  match cs with
  | '"' :: _ => (readText fuel cs).map fun (s, rest) => (.text s, rest)
  | '\'' :: _ => (readText fuel cs).map fun (s, rest) => (.text s, rest)
  | _ => readScalar cs

/-- Read a value in which brackets and braces nest at most so deeply. -/
def readNested (fuel : Nat) : Nat → Reader Toml
  | 0, cs => readFlat fuel cs
  | depth + 1, cs =>
    match cs with
    | '[' :: rest => do
      let (items, rest) ← readItems ']' (readNested fuel depth) fuel rest
      return (.array items, rest)
    | '\x7b' :: rest => do
      let (entries, rest) ←
        readItems '\x7d' (readEntry skipFiller (readNested fuel depth) fuel) fuel rest
      return (← inlineTable? entries, rest)
    | _ => readFlat fuel cs

def readValue (fuel : Nat) : Reader Toml :=
  readNested fuel maxDepth

/-! ## §3 Documents -/

def readLine (fuel : Nat) : Reader Line
  | '[' :: '[' :: rest => do
    let ((path, name), rest) ← readPath fuel (skipSpace rest)
    match skipSpace rest with
    | ']' :: ']' :: rest => return (.item path name, rest)
    | _ => none
  | '[' :: rest => do
    let ((path, name), rest) ← readPath fuel (skipSpace rest)
    match skipSpace rest with
    | ']' :: rest => return (.header path name, rest)
    | _ => none
  | cs => do
    let (((steps, name), value), rest) ← readEntry skipSpace (readValue fuel) fuel cs
    return (.entry steps name value, rest)

def readLines : Nat → List Char → Option (List Line)
  | 0, _ => none
  | fuel + 1, cs =>
    match skipFiller cs with
    | [] => some []
    | cs => do
      let (line, rest) ← readLine fuel cs
      let lines ← readLines fuel (← afterLine? rest)
      return line :: lines

/-- The document without the mark of its byte order. -/
def dropMark : List Char → List Char
  | '\ufeff' :: cs => cs
  | cs => cs

def parse? (document : String) : Option Entries := do
  let cs := dropMark document.toList
  ofLines? (← readLines (cs.length + 1) cs)

end EntityQuery.Toml
