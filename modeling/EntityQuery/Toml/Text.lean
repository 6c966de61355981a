import EntityQuery.Text.Digits

/-!
# Reading TOML texts

Texts stand between single or double quotes; those between double quotes have escapes. Three quotes
begin a text that may extend over several lines. Line breaks within it are kept as they are, but
for one right at its beginning and those after a backslash. Names are written without quotes or as
a text of one line.

Apart from tabs and line breaks no control character occurs in a text or a comment, and a carriage
return only before a line feed.
-/

namespace EntityQuery.Toml

/-- A reader takes a value off the front of a document. -/
abbrev Reader (α : Type) := List Char → Option (α × List Char)

/-! ## §1 Characters -/

/-- A tab, or a character that is not a control character. -/
def isPlain (c : Char) : Bool :=
  c = '\t' || (0x20 ≤ c.toNat && c.toNat ≠ 0x7F)

def isSpace (c : Char) : Bool :=
  c = ' ' || c = '\t'

/-- The document after spaces and tabs. -/
def skipSpace (cs : List Char) : List Char :=
  cs.dropWhile isSpace

/-- What follows a line break. -/
def afterBreak? : List Char → Option (List Char)
  | '\n' :: rest => some rest
  | '\r' :: '\n' :: rest => some rest
  | _ => none

/-- The document goes on with a plain character or a line break. -/
def beginsPlain (cs : List Char) : Bool :=
  cs.head?.any isPlain || (afterBreak? cs).isSome

/-- The document after a comment, which begins with a number sign and ends with its line. -/
def skipComment : List Char → List Char
  | '#' :: rest => rest.dropWhile isPlain
  | cs => cs

/-- What follows the end of a line: spaces, perhaps a comment, and a line break or nothing. -/
def afterLine? (cs : List Char) : Option (List Char) :=
  match skipComment (skipSpace cs) with
  | [] => some []
  | rest => afterBreak? rest

/-- The document after spaces, comments and line breaks. -/
def skipFiller (cs : List Char) : List Char :=
  skipLines (cs.length + 1) cs
where
  /-- The document after at most so many lines with nothing but spaces and comments. -/
  skipLines : Nat → List Char → List Char
    | 0, cs => cs
    | fuel + 1, cs =>
      let cs := skipComment (skipSpace cs)
      match afterBreak? cs with
      | some rest => skipLines fuel rest
      | none => cs

/-! ## §2 Texts -/

/-- The character with a code point, which no half of a surrogate pair has. -/
def charOf? (code : Nat) : Option Char :=
  if code < 0xD800 || (0xE000 ≤ code && code ≤ 0x10FFFF) then some (Char.ofNat code) else none

/-- Read the character with a code point of so many hexadecimal digits. -/
def readCode (count : Nat) : Reader Char := fun cs => do
  guard (count ≤ cs.length)
  return (← charOf? (← Text.hexToNat? (cs.take count)), cs.drop count)

def readEscape : Reader Char
  | 'b' :: rest => some ('\x08', rest)
  | 't' :: rest => some ('\t', rest)
  | 'n' :: rest => some ('\n', rest)
  | 'f' :: rest => some ('\x0c', rest)
  | 'r' :: rest => some ('\r', rest)
  | 'e' :: rest => some ('\x1b', rest)
  | '"' :: rest => some ('"', rest)
  | '\\' :: rest => some ('\\', rest)
  | 'x' :: rest => readCode 2 rest
  | 'u' :: rest => readCode 4 rest
  | 'U' :: rest => readCode 8 rest
  | _ => none

/-- Read a text with escapes after its opening quote. -/
def readBasic : Nat → Reader (List Char)
  | 0, _ => none
  | fuel + 1, cs =>
    match cs with
    | [] => none
    | '"' :: rest => some ([], rest)
    | '\\' :: rest => do
      let (c, rest) ← readEscape rest
      let (cs, rest) ← readBasic fuel rest
      return (c :: cs, rest)
    | c :: rest => do
      guard (isPlain c)
      let (cs, rest) ← readBasic fuel rest
      return (c :: cs, rest)

/-- Read a text without escapes after its opening quote. -/
def readLiteral (cs : List Char) : Option (List Char × List Char) :=
  let body := cs.takeWhile (· ≠ '\'')
  match cs.dropWhile (· ≠ '\'') with
  | _ :: rest => if body.all isPlain then some (body, rest) else none
  | [] => none

/-- The end of a text of several lines: three quotes, and up to two more that belong to it. -/
def closing? (quote : Char) (cs : List Char) : Option (List Char × List Char) :=
  let count := min 5 (cs.takeWhile (· = quote)).length
  if 3 ≤ count then some (List.replicate (count - 3) quote, cs.drop count) else none

/-- What follows a backslash at the end of a line: spaces and line breaks are skipped. -/
def afterContinuation? (fuel : Nat) (cs : List Char) : Option (List Char) :=
  (afterBreak? (skipSpace cs)).map (skipBlankLines fuel)
where
  /-- The document after spaces and line breaks. -/
  skipBlankLines : Nat → List Char → List Char
    | 0, cs => cs
    | fuel + 1, cs =>
      match afterBreak? (skipSpace cs) with
      | some rest => skipBlankLines fuel rest
      | none => skipSpace cs

/-- Read a text of several lines with escapes. -/
def readBasicLines : Nat → Reader (List Char)
  | 0, _ => none
  | fuel + 1, cs =>
    match closing? '"' cs with
    | some ending => some ending
    | none =>
      match cs with
      | [] => none
      | '\\' :: rest =>
        match afterContinuation? rest.length rest with
        | some rest => readBasicLines fuel rest
        | none => do
          let (c, rest) ← readEscape rest
          let (cs, rest) ← readBasicLines fuel rest
          return (c :: cs, rest)
      | c :: rest => do
        guard (beginsPlain (c :: rest))
        let (cs, rest) ← readBasicLines fuel rest
        return (c :: cs, rest)

/-- Read a text of several lines without escapes. -/
def readLiteralLines : List Char → Option (List Char × List Char)
  | [] => none
  | c :: rest =>
    match closing? '\'' (c :: rest) with
    | some ending => some ending
    | none => do
      guard (beginsPlain (c :: rest))
      let (cs, rest) ← readLiteralLines rest
      return (c :: cs, rest)

/-- A text of several lines may begin on the line after its opening quotes. -/
def dropFirstBreak (cs : List Char) : List Char :=
  (afterBreak? cs).getD cs

def readText (fuel : Nat) : Reader String
  | '"' :: '"' :: '"' :: rest =>
    (readBasicLines fuel (dropFirstBreak rest)).map fun (s, rest) => (String.ofList s, rest)
  | '\'' :: '\'' :: '\'' :: rest =>
    (readLiteralLines (dropFirstBreak rest)).map fun (s, rest) => (String.ofList s, rest)
  | '"' :: rest => (readBasic fuel rest).map fun (s, rest) => (String.ofList s, rest)
  | '\'' :: rest => (readLiteral rest).map fun (s, rest) => (String.ofList s, rest)
  | _ => none

/-! ## §3 Names -/

/-- A character of a name without quotes. -/
def isBareChar (c : Char) : Bool :=
  c.isAlphanum || c = '_' || c = '-'

/-- Read a name: without quotes, or a text of one line. -/
def readName (fuel : Nat) : Reader String
  | '"' :: rest => (readBasic fuel rest).map fun (s, rest) => (String.ofList s, rest)
  | '\'' :: rest => (readLiteral rest).map fun (s, rest) => (String.ofList s, rest)
  | cs =>
    match cs.takeWhile isBareChar with
    | [] => none
    | name => some (String.ofList name, cs.dropWhile isBareChar)

end EntityQuery.Toml
