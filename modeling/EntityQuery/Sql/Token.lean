/-!
# SQL tokens

The atoms of a statement. A value that a user supplies never becomes part of the text: it can only
enter as a placeholder. Strings of the schema enter as names, which have been checked to be
identifiers, or between quotes, where the quote itself is written twice.

A fragment of a statement is a list of tokens; `render` writes it out.
-/

namespace EntityQuery.Sql

/-! ## §1 Tokens -/

/-- The words of the language that statements use. -/
inductive Keyword
  | SELECT
  | FROM
  | WHERE
  | AND
  | OR
  | NOT
  | AS
  | ON
  | JOIN
  | INNER
  | LEFT
  | ORDER_BY
  | LIMIT
  | OFFSET
  | IN
  | ILIKE
  | ARRAY
  | TRUE
  deriving DecidableEq, Repr

/-- Punctuation marks and operators. -/
inductive Symbol
  | comma
  | dot
  | openParen
  | closeParen
  | openBracket
  | closeBracket
  | eq
  | ne
  | lt
  | gt
  | le
  | ge
  /-- The text of a JSON field. -/
  | jsonText
  /-- A JSON object has a key. -/
  | hasKey
  /-- A JSON object has all keys of a list. -/
  | hasAllKeys
  /-- A text vector matches a search. -/
  | textMatch
  | cast
  deriving DecidableEq, Repr

inductive Token
  | keyword (k : Keyword)
  | symbol (s : Symbol)
  | space
  /-- An identifier without quotes. -/
  | name (s : String)
  /-- A name, perhaps within a database schema. -/
  | qualified (schema : Option String) (s : String)
  /-- An identifier in double quotes: the label of an output column. -/
  | label (s : String)
  /-- A string in single quotes. -/
  | literal (s : String)
  | number (n : Nat)
  /-- The place of a bound value. -/
  | placeholder (n : Nat)
  | function (s : String)
  | typeName (s : String)
  deriving DecidableEq, Repr

/-! ## §2 Text -/

/-- How a keyword is written. -/
def Keyword.text : Keyword → String
  | SELECT => "SELECT"
  | FROM => "FROM"
  | WHERE => "WHERE"
  | AND => "AND"
  | OR => "OR"
  | NOT => "not"
  | AS => "AS"
  | ON => "ON"
  | JOIN => "JOIN"
  | INNER => "INNER"
  | LEFT => "LEFT"
  | ORDER_BY => "ORDER BY"
  | LIMIT => "LIMIT"
  | OFFSET => "OFFSET"
  | IN => "IN"
  | ILIKE => "ILIKE"
  | ARRAY => "array"
  | TRUE => "true"

/-- How a symbol is written. -/
def Symbol.text : Symbol → String
  | comma => ","
  | dot => "."
  | openParen => "("
  | closeParen => ")"
  | openBracket => "["
  | closeBracket => "]"
  | eq => "="
  | ne => "!="
  | lt => "<"
  | gt => ">"
  | le => "<="
  | ge => ">="
  | jsonText => "->>"
  | hasKey => "?"
  | hasAllKeys => "?&"
  | textMatch => "@@"
  | cast => "::"

/-- A string between two quotes, with each quote inside it written twice. -/
def quoted (quote : Char) (s : String) : String :=
  String.ofList (quote :: (s.toList.flatMap fun c => if c = quote then [c, c] else [c]) ++ [quote])

/-- How a token is written. -/
def Token.text : Token → String
  | keyword k => k.text
  | symbol s => s.text
  | space => " "
  | name s => s
  | qualified none s => s
  | qualified (some schema) s => schema ++ "." ++ s
  | label s => quoted '"' s
  | literal s => quoted '\'' s
  | number n => toString n
  | placeholder n => ":" ++ toString n
  | function s => s
  | typeName s => s

def render (tokens : List Token) : String :=
  String.join (tokens.map Token.text)

/-- Text is written piece by piece. -/
theorem render_append (s t : List Token) : render (s ++ t) = render s ++ render t := by
  apply String.toList_injective
  simp [render, String.toList_join]

/-! ## §3 Fragments -/

def column (table column : String) : List Token :=
  [.name table, .symbol .dot, .name column]

/-- A symbol with a blank on each side. -/
def spaced (s : Symbol) : List Token :=
  [.space, .symbol s, .space]

def parenthesized (tokens : List Token) : List Token :=
  .symbol .openParen :: tokens ++ [.symbol .closeParen]

/-- Fragments one after the other with a separator between them. -/
def separated (separator : List Token) : List (List Token) → List Token
  | [] => []
  | [part] => part
  | part :: parts => part ++ separator ++ separated separator parts

/-- Fragments with a keyword between them. -/
def joinedBy (keyword : Token) (parts : List (List Token)) : List Token :=
  separated [.space, keyword, .space] parts

/-- Fragments with blanks between them. -/
def joinedBySpace (parts : List (List Token)) : List Token :=
  separated [.space] parts

/-- Fragments with commas between them. -/
def joinedByComma (parts : List (List Token)) : List Token :=
  separated [.symbol .comma, .space] parts

def commaList (tokens : List Token) : List Token :=
  joinedByComma (tokens.map ([·]))

theorem joinedByComma_cons_cons (part second : List Token) (others : List (List Token)) :
    joinedByComma (part :: second :: others) =
      part ++ .symbol .comma :: .space :: joinedByComma (second :: others) := by
  simp [joinedByComma, separated]

/-- What is not part of the separator stands in one of the fragments. -/
theorem mem_separated {t : Token} {separator : List Token} {parts : List (List Token)}
    (h : t ∉ separator) : t ∈ separated separator parts ↔ ∃ part ∈ parts, t ∈ part := by
  induction parts with
  | nil => simp [separated]
  | cons part parts ih =>
    cases parts with
    | nil => simp [separated]
    | cons second others => simp [separated, h, ih]

theorem mem_joinedByComma {t : Token} {parts : List (List Token)} (hcomma : t ≠ .symbol .comma)
    (hspace : t ≠ .space) : t ∈ joinedByComma parts ↔ ∃ part ∈ parts, t ∈ part :=
  mem_separated (by simp [hcomma, hspace])

@[simp] theorem placeholder_mem_commaList {n : Nat} {tokens : List Token} :
    .placeholder n ∈ commaList tokens ↔ .placeholder n ∈ tokens := by
  rw [commaList, mem_joinedByComma (by simp) (by simp)]
  constructor
  · intro ⟨_, hpart, hmem⟩
    obtain ⟨t, ht, rfl⟩ := List.mem_map.mp hpart
    rwa [List.mem_singleton.mp hmem]
  · intro hmem
    exact ⟨_, List.mem_map_of_mem hmem, List.mem_singleton_self _⟩

end EntityQuery.Sql
