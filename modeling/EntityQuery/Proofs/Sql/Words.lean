import EntityQuery.Proofs.Sql.Content
import EntityQuery.Proofs.Sql.Tables
import EntityQuery.Text.Case

/-!
# Keywords and identifiers

A word that stands in a statement without quotes is a keyword if it is one of the words of the
language, in whatever case it is written, and an identifier otherwise. Where it stands does not
matter, and neither does what it was written for.

So the text of legible tokens has the words, symbols and strings that were written, one for one; but
a name that is spelled like a keyword is read as one. The text is read back as what was written
exactly if no name in it is (`read?_render_iff`).
-/

namespace EntityQuery.Sql

/-! ## §1 Keywords -/

namespace Keyword

def all : List Keyword :=
  [SELECT, FROM, WHERE, AND, OR, NOT, AS, ON, JOIN, INNER, LEFT, ORDER_BY, LIMIT, OFFSET, IN,
    ILIKE, ARRAY, TRUE]

/-- The words of a keyword, in capitals. -/
def words : Keyword → List String
  | NOT => ["NOT"]
  | ARRAY => ["ARRAY"]
  | TRUE => ["TRUE"]
  | ORDER_BY => ["ORDER", "BY"]
  | k => [k.text]

end Keyword

/-- The words that are keywords. -/
def keywords : List String :=
  Keyword.all.flatMap Keyword.words

/-- The keyword that a word is, in whatever case it is written. -/
def keyword? (word : String) : Option String :=
  keywords.find? (Text.sameIgnoringCase · word)

/-- No keyword has an underscore. -/
theorem keyword?_eq_none_of_underscore {word : String} (h : '_' ∈ word.toList) :
    keyword? word = none := by
  -- nor has it one when its letters are made small
  have hkeywords : ∀ k ∈ keywords, '_' ∉ Text.foldCase k := by decide
  have hword : '_' ∈ Text.foldCase word := List.mem_map_of_mem (f := Char.toLower) h
  rw [keyword?, List.find?_eq_none]
  intro k hk hsame
  rw [Text.sameIgnoringCase_iff] at hsame
  exact hkeywords k hk (hsame ▸ hword)

/-! ## §2 Pieces -/

/-- A piece of a statement as the grammar takes it. -/
inductive Piece
  | keyword (word : String)
  | identifier (name : String)
  /-- A symbol, a number, a placeholder or something in quotes. -/
  | other (lexeme : Lexeme)
  deriving DecidableEq, Repr

/-- The piece that a lexeme is: only words are of two kinds. -/
def Lexeme.piece : Lexeme → Piece
  | word text =>
    match keyword? text with
    | some k => .keyword k
    | none => .identifier text
  | l => .other l

/-- Take the text of a statement apart and tell keywords from identifiers. -/
def read? (text : String) : Option (List Piece) :=
  (lex? text).map (List.map Lexeme.piece)

namespace Token

/-- The pieces that a token is written for. -/
def pieces : Token → List Piece
  | keyword k => k.words.map .keyword
  | symbol s => [.other (.symbol s.text)]
  | space => []
  | name s | function s | typeName s | qualified none s => [.identifier s]
  | qualified (some schema) s => [.identifier schema, .other (.symbol "."), .identifier s]
  | label s => [.other (.quotedName s)]
  | literal s => [.other (.string s)]
  | number n => [.other (.number (toString n))]
  | placeholder n => [.other (.placeholder (toString n))]

/-- The names that a token writes without quotes. -/
def identifiers : Token → List String
  | name s | function s | typeName s | qualified none s => [s]
  | qualified (some schema) s => [schema, s]
  | _ => []

end Token

theorem Lexeme.piece_word_eq_identifier {name : String} :
    (word name).piece = .identifier name ↔ keyword? name = none := by
  rw [piece]
  cases keyword? name <;> simp

/-- A keyword is read as its own words. -/
theorem Keyword.map_piece_lexemes (k : Keyword) :
    (Token.keyword k).lexemes.map Lexeme.piece = k.words.map .keyword := by
  cases k <;> decide

/-- A token is read as what it is written for, unless one of its names is a keyword. -/
theorem Token.map_piece_lexemes_iff (t : Token) :
    t.lexemes.map Lexeme.piece = t.pieces ↔ ∀ name ∈ t.identifiers, keyword? name = none := by
  -- only what is written as a word can be read as something else
  cases t with
  | keyword k => simp [identifiers, pieces, Keyword.map_piece_lexemes]
  | name s | function s | typeName s =>
    simp [lexemes, pieces, identifiers, Lexeme.piece_word_eq_identifier]
  | qualified schema s =>
    have hdot : (Lexeme.symbol ".").piece = .other (.symbol ".") := rfl
    cases schema <;> simp [lexemes, pieces, identifiers, Lexeme.piece_word_eq_identifier, hdot]
  | _ => simp [lexemes, pieces, identifiers, Lexeme.piece]

/-- What a token is read as has as many pieces as it was written for. -/
theorem Token.length_lexemes (t : Token) : t.lexemes.length = t.pieces.length := by
  cases t with
  | keyword k => cases k <;> rfl
  | qualified schema s => cases schema <;> rfl
  | _ => rfl

/-! ## §3 Fragments -/

/-- The names that a fragment writes without quotes, from left to right. -/
def identifiers (tokens : List Token) : List String :=
  tokens.flatMap Token.identifiers

/-- No name in the fragment is a keyword. -/
def Plain (tokens : List Token) : Prop :=
  ∀ name ∈ identifiers tokens, keyword? name = none

theorem map_piece_lexemes_iff (tokens : List Token) :
    (tokens.flatMap Token.lexemes).map Lexeme.piece = tokens.flatMap Token.pieces ↔
      Plain tokens := by
  induction tokens with
  | nil => simp [Plain, identifiers]
  | cons t ts ih =>
    rw [List.flatMap_cons, List.flatMap_cons, List.map_append]
    have hlength : (t.lexemes.map Lexeme.piece).length = t.pieces.length := by
      rw [List.length_map, t.length_lexemes]
    have happend : Plain (t :: ts) ↔ (∀ name ∈ t.identifiers, keyword? name = none) ∧ Plain ts := by
      simp [Plain, identifiers, or_imp, forall_and]
    -- nothing is merged or split, so each token has its own share of the pieces
    rw [happend, ← t.map_piece_lexemes_iff, ← ih]
    constructor
    · exact fun h => List.append_inj h hlength
    · exact fun ⟨ht, hts⟩ => by rw [ht, hts]

/-- The text of legible tokens is read as the keywords, identifiers and other pieces that they are
written for, exactly if no name in it is a keyword. -/
theorem read?_render_iff {tokens : List Token} (h : Legible tokens) :
    read? (render tokens) = some (tokens.flatMap Token.pieces) ↔ Plain tokens := by
  rw [read?, lex?_render h, Option.map_some, Option.some_inj, map_piece_lexemes_iff]

section Fragments

variable {t : Token} {us vs : List Token}

@[simp] theorem plain_nil : Plain [] :=
  fun _ hname => absurd hname List.not_mem_nil

@[simp] theorem plain_cons :
    Plain (t :: us) ↔ (∀ name ∈ t.identifiers, keyword? name = none) ∧ Plain us := by
  simp [Plain, identifiers, or_imp, forall_and]

@[simp] theorem plain_append : Plain (us ++ vs) ↔ Plain us ∧ Plain vs := by
  simp [Plain, identifiers, or_imp, forall_and]

@[simp] theorem plain_column {table c : String} :
    Plain (column table c) ↔ keyword? table = none ∧ keyword? c = none := by
  simp [column, Token.identifiers]

@[simp] theorem plain_spaced (s : Symbol) : Plain (spaced s) := by
  simp [spaced, Token.identifiers]

@[simp] theorem plain_parenthesized : Plain (parenthesized us) ↔ Plain us := by
  simp [parenthesized, Token.identifiers]

@[simp] theorem plain_call {name : String} :
    Plain (call name us) ↔ keyword? name = none ∧ Plain us := by
  simp [call, Token.identifiers]

theorem ignores_identifiers : Ignores Token.identifiers where
  keyword _ := rfl
  symbol _ := rfl
  space := rfl
  number _ := rfl

theorem plain_commaList_placeholders (numbers : List Nat) :
    Plain (commaList (numbers.map .placeholder)) := by
  have hnone : identifiers (commaList (numbers.map .placeholder)) = [] := by
    rw [identifiers, commaList, ignores_identifiers.flatMap_joinedByComma, List.flatMap_map,
      List.flatMap_map, List.flatMap_eq_nil_iff]
    exact fun _ _ => rfl
  rw [Plain, hnone]
  exact fun _ hname => absurd hname List.not_mem_nil

end Fragments

end EntityQuery.Sql

namespace EntityQuery

/-! ## §4 Tests and conditions -/

/-- The name of the column that a value is read from. -/
def Access.columnName : Access → String
  | .localIdentifier _ => "local_identifier"
  | .parentIdentifier _ => "parent_identifier"
  | .property _ jsonColumn _ => jsonColumn

@[simp] theorem Access.plain_tokens {column : Access} :
    Sql.Plain column.tokens ↔
      Sql.keyword? column.table = none ∧ Sql.keyword? column.columnName = none := by
  cases column <;> simp [tokens, table, columnName, Sql.Token.identifiers]

end EntityQuery

namespace EntityQuery.Sql

namespace Test

variable {α β : Type}

/-- The names that a test writes besides that of its table. -/
def words : Test α → List String
  | compare column cast _ _ =>
    column.columnName :: cast.toList.flatMap fun cast => [cast.function, cast.sqlType]
  | like column _ => [column.columnName]
  | columnMatches column _ => ["to_tsvector", column.columnName, "to_tsquery"]
  | rowMatches _ _ => ["tsv", "to_tsquery"]
  | hasKey _ jsonColumn _ | hasKeys _ jsonColumn _ => [jsonColumn]
  | isValue column _ | isOneOf column _ => [column.name]
  | isPublic => ["public"]
  | always => []

@[simp] theorem words_map (f : α → β) (t : Test α) : (t.map f).words = t.words := by
  cases t <;> rfl

theorem plain_tokens_iff (t : Test Nat) :
    Plain t.tokens ↔
      (∀ table ∈ t.table?, keyword? table = none) ∧ ∀ name ∈ t.words, keyword? name = none := by
  have hquery : keyword? "to_tsquery" = none := by decide
  cases t with
  | compare column cast operator value =>
    cases cast <;> simp [tokens, table?, words, Token.identifiers, and_assoc, and_left_comm]
  | _ =>
    simp [tokens, table?, words, searchOf, Token.identifiers, plain_commaList_placeholders,
      hquery, and_left_comm]

end Test

/-- A condition writes the names of its tests. -/
theorem Condition.plain_tokens_iff (c : Condition) :
    Plain c.tokens ↔ ∀ t ∈ c.formula.atoms, Plain t.tokens := by
  induction c with
  | test t => simp [tokens, formula, Formula.atoms]
  | not c ih | group c ih => simp [tokens, formula, Formula.atoms, Token.identifiers, ih]
  | and left right ihl ihr | or left right ihl ihr =>
    simp [tokens, formula, Formula.atoms, Token.identifiers, ihl, ihr, or_imp, forall_and]

/-- No name in a condition is a keyword if no table is that it reads and none of the other names in
its tests. -/
theorem Condition.plain_of_tables {c : Condition}
    (htables : ∀ table ∈ tables c.tokens, keyword? table = none)
    (hwords : ∀ t ∈ c.formula.atoms, ∀ name ∈ t.words, keyword? name = none) : Plain c.tokens := by
  rw [tables_tokens] at htables
  rw [plain_tokens_iff]
  intro t ht
  rw [Test.plain_tokens_iff]
  exact ⟨fun table htable => htables table (List.mem_filterMap.mpr ⟨t, ht, htable⟩), hwords t ht⟩

/-! ## §5 Statements -/

theorem TableRef.referenceName_mem_identifiers (t : TableRef) :
    t.referenceName ∈ identifiers t.tokens := by
  obtain ⟨schema, table, rename⟩ := t
  cases rename with
  | none => cases schema <;> simp [tokens, referenceName, renamed, identifiers, Token.identifiers]
  | some name => simp [tokens, referenceName, renamed, identifiers, Token.identifiers]

@[simp] theorem SelectItem.plain_tokens {item : SelectItem} :
    Plain item.tokens ↔ Plain item.expr := by
  cases h : item.label <;> simp [tokens, renamed, h, Token.identifiers]

namespace Query

/-- The parts of a statement in which no name is a keyword. -/
structure PlainParts (q : Query) : Prop where
  select : ∀ item ∈ q.select, Plain item.expr
  source : ∀ t ∈ q.source, Plain t.tokens
  joins : ∀ j ∈ q.joins, Plain j.table.tokens ∧ Plain j.on
  filter : Plain q.filter
  orderBy : ∀ part ∈ q.orderBy, Plain part

theorem mem_identifiers_tokens {q : Query} {name : String} :
    name ∈ identifiers q.tokens ↔
      (∃ item ∈ q.select, name ∈ identifiers item.tokens) ∨
      (∃ t ∈ q.source, name ∈ identifiers t.tokens) ∨
      (∃ j ∈ q.joins, name ∈ identifiers j.table.tokens ∨ name ∈ identifiers j.on) ∨
      name ∈ identifiers q.filter ∨ ∃ part ∈ q.orderBy, name ∈ identifiers part := by
  simp only [identifiers, ignores_identifiers.flatMap_query, List.mem_append, List.mem_flatMap,
    Option.mem_toList, Option.mem_def, or_assoc]

/-- No name in a statement is a keyword if there is none in its parts. -/
theorem PlainParts.plain {q : Query} (h : q.PlainParts) : Plain q.tokens := by
  intro name hname
  rcases mem_identifiers_tokens.mp hname with ⟨item, hitem, hname⟩ | ⟨t, ht, hname⟩ |
    ⟨j, hj, hname | hname⟩ | hname | ⟨part, hpart, hname⟩
  · exact SelectItem.plain_tokens.mpr (h.select item hitem) name hname
  · exact h.source t ht name hname
  · exact (h.joins j hj).1 name hname
  · exact (h.joins j hj).2 name hname
  · exact h.filter name hname
  · exact h.orderBy part hpart name hname

/-- The names of its tables are among the names that a statement writes. -/
theorem introduced_subset_identifiers (q : Query) : q.introduced ⊆ identifiers q.tokens := by
  intro name hname
  rw [mem_identifiers_tokens]
  -- the table that the statement starts from, and those that it joins
  rcases List.mem_append.mp hname with hname | hname
  · obtain ⟨t, ht, rfl⟩ := List.mem_map.mp hname
    exact .inr (.inl ⟨t, Option.mem_toList.mp ht, t.referenceName_mem_identifiers⟩)
  · obtain ⟨j, hj, rfl⟩ := List.mem_map.mp hname
    exact .inr (.inr (.inl ⟨j, hj, .inl j.table.referenceName_mem_identifiers⟩))

end Query

end EntityQuery.Sql
