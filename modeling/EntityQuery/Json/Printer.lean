import EntityQuery.Json.Value

/-!
# Writing JSON

Values are written in a compact form without blanks and in an indented form with two blanks a
level. In a text only the quote, the backslash and the characters below U+0020 are escaped; all
else stands for itself.

A `void` value has no text of its own and is written as `null`.
-/

namespace EntityQuery.Json

/-! ## §1 Texts -/

/-- The lower-case hexadecimal digit of a value below sixteen. -/
def hexDigit (n : Nat) : Char :=
  Nat.digitChar n

/-- One character of a text as it stands between the quotes. -/
def escape (c : Char) : List Char :=
  if c = '"' then ['\\', '"']
  else if c = '\\' then ['\\', '\\']
  else if c = '\x08' then ['\\', 'b']
  else if c = '\x0c' then ['\\', 'f']
  else if c = '\n' then ['\\', 'n']
  else if c = '\r' then ['\\', 'r']
  else if c = '\t' then ['\\', 't']
  else if c.toNat < 0x20 then
    ['\\', 'u', '0', '0', hexDigit (c.toNat / 16), hexDigit (c.toNat % 16)]
  else [c]

/-- A text between its quotes. -/
def quote (s : String) : List Char :=
  '"' :: s.toList.flatMap escape ++ ['"']

/-- The characters of a value that has no parts. -/
def renderAtom : Json → List Char
  | .bool true => "true".toList
  | .bool false => "false".toList
  | .int n => (toString n).toList
  | .real literal => literal.toList
  | .text s => quote s
  | _ => "null".toList

/-! ## §2 The compact form -/

mutual
/-- The characters of the compact form. -/
def compactChars : Json → List Char
  | .array items => '[' :: itemChars items ++ [']']
  | .object fields => '\x7b' :: fieldChars fields ++ ['\x7d']
  | json => renderAtom json

/-- The items of an array with commas between them. -/
def itemChars : List Json → List Char
  | [] => []
  | [item] => compactChars item
  | item :: items => compactChars item ++ ',' :: itemChars items

/-- The fields of an object with commas between them. -/
def fieldChars : List (String × Json) → List Char
  | [] => []
  | [(name, value)] => quote name ++ ':' :: compactChars value
  | (name, value) :: fields => quote name ++ ':' :: compactChars value ++ ',' :: fieldChars fields
end

/-- The compact form of a value. -/
def compact (json : Json) : String :=
  String.ofList json.compactChars

/-! ## §3 The indented form -/

/-- The start of a line at a level. -/
def newLine (level : Nat) : List Char :=
  '\n' :: List.replicate (2 * level) ' '

mutual
/-- The characters of the indented form of a value that stands at a level. -/
def indentedChars (level : Nat) : Json → List Char
  | .array [] => "[]".toList
  | .array items => '[' :: indentedItems (level + 1) items ++ newLine level ++ [']']
  | .object [] => "\x7b\x7d".toList
  | .object fields => '\x7b' :: indentedFields (level + 1) fields ++ newLine level ++ ['\x7d']
  | json => renderAtom json

/-- The items of an array, each on lines of its own. -/
def indentedItems (level : Nat) : List Json → List Char
  | [] => []
  | [item] => newLine level ++ indentedChars level item
  | item :: items =>
    newLine level ++ indentedChars level item ++ ',' :: indentedItems level items

/-- The fields of an object, each on lines of its own. -/
def indentedFields (level : Nat) : List (String × Json) → List Char
  | [] => []
  | [(name, value)] => newLine level ++ quote name ++ ": ".toList ++ indentedChars level value
  | (name, value) :: fields =>
    newLine level ++ quote name ++ ": ".toList ++ indentedChars level value ++
      ',' :: indentedFields level fields
end

/-- The indented form of a value. -/
def indented (json : Json) : String :=
  String.ofList (json.indentedChars 0)

end EntityQuery.Json
