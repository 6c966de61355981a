import EntityQuery.Json.Number

/-!
# Reading JSON

The grammar of RFC 8259, over characters. Only space, tab, line feed and carriage return separate
tokens; a character below U+0020 never stands in a text; nothing but blanks may follow the value.

A text is read in two steps. The first takes it apart into characters and halves of surrogate
pairs, which only `\u` escapes can write. The second puts halves together, and fails where one
stands alone.

Nesting is bounded by fuel, for which the length of the document is always enough.
-/

namespace EntityQuery.Json

/-! ## §1 Separators -/

/-- The four characters that separate tokens. -/
def isSeparator (c : Char) : Bool :=
  c = ' ' || c = '\t' || c = '\n' || c = '\r'

/-- The document from its next token on. -/
def skipSeparators (cs : List Char) : List Char :=
  cs.dropWhile isSeparator

/-- What follows a given word. -/
def expect : List Char → List Char → Option (List Char)
  | [], cs => some cs
  | w :: ws, c :: cs => if w = c then expect ws cs else none
  | _ :: _, [] => none

/-! ## §2 Texts -/

/-- What one place of a text writes: a character, or half of a surrogate pair. -/
inductive TextUnit
  | char (c : Char)
  | high (code : Nat)
  | low (code : Nat)

/-- The unit that a `\u` escape writes. -/
def TextUnit.ofCode (code : Nat) : TextUnit :=
  if 0xD800 ≤ code && code ≤ 0xDBFF then .high code
  else if 0xDC00 ≤ code && code ≤ 0xDFFF then .low code
  else .char (Char.ofNat code)

/-- The character that a one-letter escape writes. -/
def escaped? : Char → Option Char
  | '"' => some '"'
  | '\\' => some '\\'
  | '/' => some '/'
  | 'b' => some '\x08'
  | 'f' => some '\x0c'
  | 'n' => some '\n'
  | 'r' => some '\r'
  | 't' => some '\t'
  | _ => none

/-- The units of a text up to its closing quote, and what follows the quote. -/
def readUnits : List Char → Option (List TextUnit × List Char)
  | [] => none
  | '"' :: rest => some ([], rest)
  | '\\' :: 'u' :: a :: b :: c :: d :: rest => do
    let code ← Text.hexToNat? [a, b, c, d]
    let (units, rest) ← readUnits rest
    return (.ofCode code :: units, rest)
  | '\\' :: e :: rest => do
    let char ← escaped? e
    let (units, rest) ← readUnits rest
    return (.char char :: units, rest)
  | c :: rest => do
    guard (0x20 ≤ c.toNat && c ≠ '\\')
    let (units, rest) ← readUnits rest
    return (.char c :: units, rest)

/-- The code point that two halves of a surrogate pair stand for. -/
def joinHalves (high low : Nat) : Char :=
  Char.ofNat (0x10000 + (high - 0xD800) * 0x400 + (low - 0xDC00))

/-- The characters that units spell, unless one is a half without its other half. -/
def spell : List TextUnit → Option (List Char)
  | [] => some []
  | .char c :: units => (spell units).map (c :: ·)
  | .high h :: .low l :: units => (spell units).map (joinHalves h l :: ·)
  | _ :: _ => none

/-- Read a text after its opening quote; `none` in place of the text if it denotes nothing. -/
def readText (cs : List Char) : Option (Option String × List Char) :=
  (readUnits cs).map fun (units, rest) => ((spell units).map String.ofList, rest)

/-! ## §3 Values -/

/-- A reader takes a value off the front of a document. -/
abbrev Reader (α : Type) := List Char → Option (α × List Char)

/-- The items of an array after the first, and the closing bracket. -/
def readItems (readValue : Reader Json) : Nat → Reader (List Json)
  | 0, _ => none
  | fuel + 1, cs =>
    match skipSeparators cs with
    | ']' :: rest => some ([], rest)
    | ',' :: rest => do
      let (item, rest) ← readValue rest
      let (items, rest) ← readItems readValue fuel rest
      return (item :: items, rest)
    | _ => none

/-- An array after its opening bracket. -/
def readArray (readValue : Reader Json) (fuel : Nat) (cs : List Char) :
    Option (Json × List Char) :=
  match skipSeparators cs with
  | ']' :: rest => some (.array [], rest)
  | rest => do
    let (item, rest) ← readValue rest
    let (items, rest) ← readItems readValue fuel rest
    return (.array (item :: items), rest)

/-- A field of an object: its name, which may denote nothing, a colon and its value. -/
def readField (readValue : Reader Json) (cs : List Char) :
    Option ((Option String × Json) × List Char) :=
  match skipSeparators cs with
  | '"' :: rest => do
    let (name, rest) ← readText rest
    match skipSeparators rest with
    | ':' :: rest => do
      let (value, rest) ← readValue rest
      return ((name, value), rest)
    | _ => none
  | _ => none

/-- The fields of an object after the first, and the closing brace. -/
def readFields (readValue : Reader Json) : Nat → Reader (List (Option String × Json))
  | 0, _ => none
  | fuel + 1, cs =>
    match skipSeparators cs with
    | '\x7d' :: rest => some ([], rest)
    | ',' :: rest => do
      let (field, rest) ← readField readValue rest
      let (fields, rest) ← readFields readValue fuel rest
      return (field :: fields, rest)
    | _ => none

/-- The object with the given fields; it denotes nothing if a name does not. -/
def ofNamed (fields : List (Option String × Json)) : Json :=
  match fields.mapM fun (name, value) => name.map (·, value) with
  | some fields => .object fields
  | none => .void

/-- An object after its opening brace. -/
def readObject (readValue : Reader Json) (fuel : Nat) (cs : List Char) :
    Option (Json × List Char) :=
  match skipSeparators cs with
  | '\x7d' :: rest => some (.object [], rest)
  | rest => do
    let (field, rest) ← readField readValue rest
    let (fields, rest) ← readFields readValue fuel rest
    return (ofNamed (field :: fields), rest)

/-- Read a value that nests less deeply than the fuel. -/
def readValue : Nat → Reader Json
  | 0, _ => none
  | fuel + 1, cs =>
    match skipSeparators cs with
    | 'n' :: rest => (expect "ull".toList rest).map (.null, ·)
    | 't' :: rest => (expect "rue".toList rest).map (.bool true, ·)
    | 'f' :: rest => (expect "alse".toList rest).map (.bool false, ·)
    | '"' :: rest => (readText rest).map fun (s, rest) => (s.elim .void .text, rest)
    | '[' :: rest => readArray (readValue fuel) fuel rest
    | '\x7b' :: rest => readObject (readValue fuel) fuel rest
    | rest => readNumber rest

/-- Read a document: one value with nothing but blanks around it. -/
def parse (document : String) : Option Json := do
  let cs := document.toList
  let (json, rest) ← readValue (cs.length + 1) cs
  guard (skipSeparators rest).isEmpty
  return json

end EntityQuery.Json
