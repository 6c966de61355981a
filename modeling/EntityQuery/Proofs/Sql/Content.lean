import EntityQuery.Proofs.Meaning
import EntityQuery.Proofs.Sql.Legible

/-!
# The content of a statement

Labels, strings and placeholders are what a statement takes over from outside; all else in it are
words and symbols of the language and names that were checked. The content of a statement is found
fragment by fragment, each in its place, and so it is known without reading the statement.
-/

namespace EntityQuery.Sql

/-! ## §1 Content -/

namespace Lexeme

/-- A lexeme in quotes or a placeholder. -/
def isContent : Lexeme → Bool
  | string _ | quotedName _ | placeholder _ => true
  | word _ | symbol _ | number _ => false

/-- The string that a lexeme is. -/
def string? : Lexeme → Option String
  | string text => some text
  | _ => none

/-- The name in quotes that a lexeme is. -/
def quotedName? : Lexeme → Option String
  | quotedName text => some text
  | _ => none

/-- The key of the placeholder that a lexeme is. -/
def placeholder? : Lexeme → Option String
  | placeholder digits => some digits
  | _ => none

/-- None of the three selections takes anything but content. -/
theorem selections_eq_none {l : Lexeme} (h : l.isContent = false) :
    l.string? = none ∧ l.quotedName? = none ∧ l.placeholder? = none := by
  cases l with
  | word | symbol | number => exact ⟨rfl, rfl, rfl⟩
  | string | quotedName | placeholder => exact absurd h (by simp [isContent])

end Lexeme

/-- The content of a token. -/
def Token.content : Token → List Lexeme
  | label s => [.quotedName s]
  | literal s => [.string s]
  | placeholder n => [.placeholder (toString n)]
  | _ => []

/-- The content of a fragment from left to right. -/
def content (tokens : List Token) : List Lexeme :=
  tokens.flatMap Token.content

theorem Token.filter_lexemes (t : Token) : t.lexemes.filter Lexeme.isContent = t.content := by
  cases t with
  | keyword k => cases k <;> rfl
  | qualified schema s => cases schema <;> rfl
  | _ => rfl

/-- The content of a fragment is what is left of it when words, symbols and numbers are dropped. -/
theorem filter_lexemes (tokens : List Token) :
    (tokens.flatMap Token.lexemes).filter Lexeme.isContent = content tokens := by
  -- token by token
  rw [List.filter_flatMap, content]
  exact congrArg tokens.flatMap (funext Token.filter_lexemes)

/-- What is neither in quotes nor a placeholder does not matter to a selection of content. -/
theorem filterMap_lexemes {f : Lexeme → Option String} (h : ∀ l, l.isContent = false → f l = none)
    (tokens : List Token) :
    (tokens.flatMap Token.lexemes).filterMap f = (content tokens).filterMap f := by
  -- lexemes that are no content can be dropped before the selection
  have hf : f = fun l => if l.isContent then f l else none := by
    funext l
    cases hl : l.isContent with
    | false => rw [h l hl]; rfl
    | true => rfl
  rw [← filter_lexemes, List.filterMap_filter, ← hf]

/-! ## §2 Fragments -/

/-- A selection from the tokens of a statement that takes nothing from what the language itself puts
between fragments: keywords, symbols, blanks and the numbers of a page. -/
structure Ignores {α : Type} (f : Token → List α) : Prop where
  keyword : ∀ k, f (.keyword k) = []
  symbol : ∀ s, f (.symbol s) = []
  space : f .space = []
  number : ∀ n, f (.number n) = []

theorem Ignores.flatMap_joinedByComma {α : Type} {f : Token → List α} (h : Ignores f)
    (parts : List (List Token)) :
    (joinedByComma parts).flatMap f = parts.flatMap (List.flatMap f) := by
  -- a comma and a blank stand between two parts, and neither is taken
  induction parts with
  | nil => rfl
  | cons part parts ih =>
    cases parts with
    | nil => simp [joinedByComma, separated]
    | cons second others =>
      rw [joinedByComma_cons_cons, List.flatMap_append, List.flatMap_cons, List.flatMap_cons, ih,
        h.symbol, h.space]
      rfl

theorem ignores_content : Ignores Token.content where
  keyword _ := rfl
  symbol _ := rfl
  space := rfl
  number _ := rfl

@[simp] theorem content_nil : content [] = [] :=
  rfl

@[simp] theorem content_cons (t : Token) (ts : List Token) :
    content (t :: ts) = t.content ++ content ts :=
  List.flatMap_cons

@[simp] theorem content_append (s t : List Token) : content (s ++ t) = content s ++ content t :=
  List.flatMap_append

@[simp] theorem content_column (table c : String) : content (column table c) = [] := by
  rfl

@[simp] theorem content_spaced (s : Symbol) : content (spaced s) = [] := by
  rfl

@[simp] theorem content_parenthesized (tokens : List Token) :
    content (parenthesized tokens) = content tokens := by
  simp [parenthesized, Token.content]

@[simp] theorem content_joinedByComma (parts : List (List Token)) :
    content (joinedByComma parts) = parts.flatMap content :=
  ignores_content.flatMap_joinedByComma parts

theorem content_commaList_placeholders (numbers : List Nat) :
    content (commaList (numbers.map .placeholder)) =
      numbers.map fun n => .placeholder (toString n) := by
  rw [commaList, content_joinedByComma, List.flatMap_map, List.flatMap_map]
  exact List.map_eq_flatMap.symm

@[simp] theorem content_call (name : String) (argument : List Token) :
    content (call name argument) = content argument := by
  simp [call, Token.content]

/-! ## §3 Conditions -/

end EntityQuery.Sql

namespace EntityQuery

/-- The property that a value is read from. Identifiers have columns of their own. -/
def Access.properties : Access → List String
  | .localIdentifier _ | .parentIdentifier _ => []
  | .property _ _ key => [key]

@[simp] theorem Access.content_tokens (column : Access) :
    Sql.content column.tokens = column.properties.map .string := by
  cases column <;> simp [tokens, properties, Sql.Token.content]

end EntityQuery

namespace EntityQuery.Sql

namespace Test

variable {α β : Type}

/-- The property that a test reads by its name. The keys that a test asks for are values. -/
def properties : Test α → List String
  | compare column .. | like column _ | columnMatches column _ => column.properties
  | _ => []

@[simp] theorem properties_map (f : α → β) (t : Test α) : (t.map f).properties = t.properties := by
  cases t <;> rfl

/-- The content of a test: its property comes before the places of its values. -/
def content (t : Test Nat) : List Lexeme :=
  t.properties.map .string ++ t.values.map fun n => .placeholder (toString n)

@[simp] theorem content_tokens (t : Test Nat) : Sql.content t.tokens = t.content := by
  -- names of columns and functions are words, and only properties are in quotes
  cases t with
  | compare column cast operator value =>
    cases cast <;> simp [tokens, content, properties, values, Token.content]
  | _ =>
    simp [tokens, content, properties, values, searchOf, Token.content,
      content_commaList_placeholders]

end Test

@[simp] theorem Condition.content_tokens (c : Condition) :
    content c.tokens = c.formula.atoms.flatMap Test.content := by
  induction c with
  | test t => simp [tokens, formula, Formula.atoms]
  | not c ih | group c ih => simp [tokens, formula, Formula.atoms, Token.content, ih]
  | and left right ihl ihr | or left right ihl ihr =>
    simp [tokens, formula, Formula.atoms, Token.content, ihl, ihr]

/-! ## §4 Statements -/

/-- What is selected from a statement is selected from its items, its tables, the conditions of its
joins, its filter and its order, clause by clause. -/
theorem Ignores.flatMap_query {α : Type} {f : Token → List α} (h : Ignores f) (q : Query) :
    q.tokens.flatMap f =
      q.select.flatMap (·.tokens.flatMap f) ++ q.source.toList.flatMap (·.tokens.flatMap f) ++
        q.joins.flatMap (fun j => j.table.tokens.flatMap f ++ j.on.flatMap f) ++
        q.filter.flatMap f ++ q.orderBy.flatMap (List.flatMap f) := by
  -- a clause is its body behind a keyword and blanks
  have hclause : ∀ (keyword : Keyword) (body : List Token),
      (clause keyword body).flatMap f = body.flatMap f := by
    intro keyword body
    simp [clause, h.keyword, h.space]
  have hjoin : ∀ j : Join, (.space :: j.tokens).flatMap f =
      j.table.tokens.flatMap f ++ j.on.flatMap f := by
    intro j
    simp [Join.tokens, h.keyword, h.space]
  have hsource : (clause? .FROM (q.source.map TableRef.tokens)).flatMap f =
      q.source.toList.flatMap (·.tokens.flatMap f) := by
    cases q.source <;> simp [clause?, hclause]
  have hfilter : (if q.filter.isEmpty then [] else clause .WHERE q.filter).flatMap f =
      q.filter.flatMap f := by
    cases q.filter <;> simp [hclause]
  have horder : (if q.orderBy.isEmpty then [] else
      clause .ORDER_BY (joinedByComma q.orderBy)).flatMap f =
        q.orderBy.flatMap (List.flatMap f) := by
    cases q.orderBy <;> simp [hclause, h.flatMap_joinedByComma]
  have hnumber : ∀ (keyword : Keyword) (n : Option Nat),
      (clause? keyword (n.map ([.number ·]))).flatMap f = [] := by
    intro keyword n
    cases n <;> simp [clause?, hclause, h.number]
  simp only [Query.tokens, List.flatMap_append, h.flatMap_joinedByComma, List.flatMap_map,
    List.flatMap_assoc, hjoin, hsource, hfilter, horder, hnumber, List.append_nil,
    List.flatMap_cons, List.flatMap_nil, h.keyword, h.space, List.nil_append]

@[simp] theorem SelectItem.content_tokens (item : SelectItem) :
    content item.tokens = content item.expr ++ item.label.toList.map .quotedName := by
  cases hlabel : item.label <;> simp [tokens, hlabel, renamed, Token.content]

@[simp] theorem TableRef.content_tokens (t : TableRef) : content t.tokens = [] := by
  cases hrename : t.rename <;> simp [tokens, hrename, renamed, Token.content]

/-- The content of a statement is that of its items, its joins, its filter and its order. -/
theorem Query.content_tokens (q : Query) :
    content q.tokens =
      q.select.flatMap (fun item => content item.tokens) ++ q.joins.flatMap (content ·.on) ++
        content q.filter ++ q.orderBy.flatMap content := by
  -- the names of tables have no content
  have htable : ∀ t : TableRef, t.tokens.flatMap Token.content = [] := TableRef.content_tokens
  have hnone : q.source.toList.flatMap (fun _ => ([] : List Lexeme)) = [] := by
    rw [List.flatMap_eq_nil_iff]
    exact fun _ _ => rfl
  have hquery := ignores_content.flatMap_query q
  simp only [htable, hnone, List.nil_append, List.append_nil] at hquery
  exact hquery

end EntityQuery.Sql
