import EntityQuery.Sql.Token

/-!
# SELECT statements

The clauses of a statement and the order in which they are written. Conditions and expressions are
fragments of tokens that are put in their places as they are.
-/

namespace EntityQuery.Sql

/-! ## §1 Parts -/

/-- What a statement selects: an expression and perhaps a label for it. -/
structure SelectItem where
  expr : List Token
  label : Option String := none
  deriving DecidableEq, Repr

/-- A table, perhaps within a database schema and under a name of its own. -/
structure TableRef where
  schema : Option String := none
  table : String
  rename : Option String := none
  deriving DecidableEq, Repr

/-- Whether a join keeps the rows that find no partner. -/
inductive JoinType
  | inner
  | left
  deriving DecidableEq, Repr

/-- A joined table and the condition under which rows are partners. -/
structure Join where
  type : JoinType
  table : TableRef
  on : List Token
  deriving DecidableEq, Repr

/-- A statement. An empty condition filters nothing. -/
structure Query where
  select : List SelectItem := []
  source : Option TableRef := none
  joins : List Join := []
  filter : List Token := []
  orderBy : List (List Token) := []
  offset : Option Nat := none
  limit : Option Nat := none
  deriving DecidableEq, Repr

/-! ## §2 Tokens -/

def JoinType.keyword : JoinType → Keyword
  | .inner => .INNER
  | .left => .LEFT

/-- A new name, if there is one. -/
def renamed (name : Option Token) : List Token :=
  match name with
  | some name => [.space, .keyword .AS, .space, name]
  | none => []

def SelectItem.tokens (item : SelectItem) : List Token :=
  item.expr ++ renamed (item.label.map .label)

def SelectItem.ofColumn (table name : String) (label : Option String) : SelectItem :=
  ⟨column table name, label⟩

def TableRef.tokens (t : TableRef) : List Token :=
  .qualified t.schema t.table :: renamed (t.rename.map .name)

/-- The name by which the rest of the statement refers to a table. -/
def TableRef.referenceName (t : TableRef) : String :=
  t.rename.getD t.table

/-- The name by which the rest of the statement refers to a joined table. -/
def Join.referenceName (j : Join) : String :=
  j.table.referenceName

def Join.tokens (j : Join) : List Token :=
  [.keyword j.type.keyword, .space, .keyword .JOIN, .space] ++ j.table.tokens ++
    [.space, .keyword .ON, .space] ++ j.on

/-- A clause: a blank, its keyword, another blank and what it says. -/
def clause (keyword : Keyword) (body : List Token) : List Token :=
  .space :: .keyword keyword :: .space :: body

/-- A clause that is left out if there is nothing for it. -/
def clause? (keyword : Keyword) (body : Option (List Token)) : List Token :=
  body.elim [] (clause keyword)

namespace Query

def tokens (q : Query) : List Token :=
  [.keyword .SELECT, .space] ++ joinedByComma (q.select.map SelectItem.tokens) ++
    clause? .FROM (q.source.map TableRef.tokens) ++
    q.joins.flatMap (fun j => .space :: j.tokens) ++
    (if q.filter.isEmpty then [] else clause .WHERE q.filter) ++
    (if q.orderBy.isEmpty then [] else clause .ORDER_BY (joinedByComma q.orderBy)) ++
    clause? .OFFSET (q.offset.map ([.number ·])) ++
    clause? .LIMIT (q.limit.map ([.number ·]))

def text (q : Query) : String :=
  render q.tokens

end Query

end EntityQuery.Sql
