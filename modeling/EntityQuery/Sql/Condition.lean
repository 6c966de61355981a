import EntityQuery.Column
import EntityQuery.Expression.Operator

/-!
# Conditions

What a WHERE clause says. A condition is built from tests by negation, conjunction, disjunction and
parentheses, and is written out in exactly this shape: nothing is parenthesized but a group.

The tests of a condition hold the numbers of the values that they compare with, never the values
themselves.
-/

namespace EntityQuery.Sql

/-! ## §1 Tests -/

/-- A column of the table of expeditions by which rows are picked. -/
inductive ExpeditionColumn
  | code
  | projectId
  deriving DecidableEq, Repr

def ExpeditionColumn.name : ExpeditionColumn → String
  | code => "expedition_code"
  | projectId => "project_id"

/-- A test of one row, which the database evaluates as a whole. It compares with values, which are
given by themselves or by their numbers. -/
inductive Test (Value : Type)
  /-- A column compared with a value, both under a cast if there is one. -/
  | compare (column : Access) (cast : Option Cast) (operator : ComparisonOperator) (value : Value)
  /-- A column that matches a pattern. -/
  | like (column : Access) (pattern : Value)
  /-- A column with the words of a search. -/
  | columnMatches (column : Access) (search : Value)
  /-- A row with the words of a search. -/
  | rowMatches (table : String) (search : Value)
  /-- A JSON column with a key. -/
  | hasKey (table jsonColumn : String) (key : Value)
  /-- A JSON column with several keys. -/
  | hasKeys (table jsonColumn : String) (keys : List Value)
  /-- A column of expeditions equal to a value. -/
  | isValue (column : ExpeditionColumn) (value : Value)
  /-- A column of expeditions equal to one of several values. -/
  | isOneOf (column : ExpeditionColumn) (values : List Value)
  | isPublic
  | always
  deriving DecidableEq, Repr

def operatorSymbol : ComparisonOperator → Symbol
  | .eq => .eq
  | .ne => .ne
  | .gt => .gt
  | .ge => .ge
  | .lt => .lt
  | .le => .le

/-- A function applied to an argument. -/
def call (name : String) (argument : List Token) : List Token :=
  .function name :: parenthesized argument

/-- The search that a value specifies. -/
def searchOf (value : Nat) : List Token :=
  call "to_tsquery" [.placeholder value]

namespace Test

def tokens : Test Nat → List Token
  | compare column none operator value =>
    column.tokens ++ spaced (operatorSymbol operator) ++ [.placeholder value]
  | compare column (some cast) operator value =>
    call cast.function column.tokens ++ spaced (operatorSymbol operator) ++
      [.placeholder value, .symbol .cast, .typeName cast.sqlType]
  | like column pattern =>
    column.tokens ++ [.space, .keyword .ILIKE, .space, .placeholder pattern]
  | columnMatches column search =>
    call "to_tsvector" column.tokens ++ spaced .textMatch ++ searchOf search
  | rowMatches table search => column table "tsv" ++ spaced .textMatch ++ searchOf search
  | hasKey table jsonColumn key =>
    column table jsonColumn ++ spaced .hasKey ++ [.placeholder key]
  | hasKeys table jsonColumn keys =>
    column table jsonColumn ++ spaced .hasAllKeys ++
      [.keyword .ARRAY, .symbol .openBracket] ++ commaList (keys.map .placeholder) ++
      [.symbol .closeBracket]
  | isValue c value => column expeditionsTable c.name ++ spaced .eq ++ [.placeholder value]
  | isOneOf c values =>
    column expeditionsTable c.name ++ [.space, .keyword .IN, .space] ++
      parenthesized (commaList (values.map .placeholder))
  | isPublic => column expeditionsTable "public" ++ spaced .eq ++ [.keyword .TRUE]
  | always => [.keyword .TRUE]

end Test

/-! ## §2 Conditions -/

/-- A condition as it is written. -/
inductive Condition
  | test (t : Test Nat)
  | not (c : Condition)
  | and (left right : Condition)
  | or (left right : Condition)
  | group (c : Condition)
  deriving DecidableEq, Repr

namespace Condition

def tokens : Condition → List Token
  | test t => t.tokens
  | not c => [.keyword .NOT, .space] ++ c.tokens
  | and left right => left.tokens ++ [.space, .keyword .AND, .space] ++ right.tokens
  | or left right => left.tokens ++ [.space, .keyword .OR, .space] ++ right.tokens
  | group c => parenthesized c.tokens

/-- Tests that all have to hold; more than one are put into parentheses. -/
def allOf (first : Condition) : List Condition → Condition
  | [] => first
  | others => group (others.foldl and first)

end Condition

end EntityQuery.Sql
