import EntityQuery.Draft.Visit
import EntityQuery.Proofs.Formula

/-!
# What expressions mean

The meaning of an expression, said without a draft: the predicates that its leaves stand for, with
their literals in them, and the formula that its connectives make of these. A selection and `all`
have no predicate, and a connective with only one side that has one passes that side on. What a
search looks for and which properties have to be there is said by the term and by the columns
themselves, apart from the steps in which a visit finds it.

An expression is well nested if writing it without parentheses does not change what it says.
-/

namespace EntityQuery

/-! ## §1 Tests of values -/

/-- A test with the values themselves. -/
abbrev Predicate := Sql.Test String

namespace Sql.Test

variable {α β : Type}

/-- What a test compares with, in the order in which it is written. -/
def values : Test α → List α
  | compare _ _ _ value | like _ value | columnMatches _ value | rowMatches _ value
  | hasKey _ _ value | isValue _ value => [value]
  | hasKeys _ _ values | isOneOf _ values => values
  | isPublic | always => []

/-- The test with its values replaced. -/
def map (f : α → β) : Test α → Test β
  | compare column cast operator value => compare column cast operator (f value)
  | like column pattern => like column (f pattern)
  | columnMatches column search => columnMatches column (f search)
  | rowMatches table search => rowMatches table (f search)
  | hasKey table jsonColumn key => hasKey table jsonColumn (f key)
  | hasKeys table jsonColumn keys => hasKeys table jsonColumn (keys.map f)
  | isValue column value => isValue column (f value)
  | isOneOf column values => isOneOf column (values.map f)
  | isPublic => isPublic
  | always => always

/-- A JSON column with all of some keys. -/
def hasAll (table jsonColumn : String) : List α → Test α
  | [key] => hasKey table jsonColumn key
  | keys => hasKeys table jsonColumn keys

/-- A column of expeditions with one of some values. -/
def isAmong (column : ExpeditionColumn) : List α → Test α
  | [value] => isValue column value
  | values => isOneOf column values

@[simp] theorem values_hasAll (table jsonColumn : String) (keys : List α) :
    (hasAll table jsonColumn keys).values = keys := by
  -- a single key has a test of its own, with the same value
  unfold hasAll
  split <;> rfl

@[simp] theorem values_isAmong (column : ExpeditionColumn) (values : List α) :
    (isAmong column values).values = values := by
  unfold isAmong
  split <;> rfl

/-- The test with numbers for its values, counted from `n`. -/
def number (n : Nat) : Test α → Test Nat
  | compare column cast operator _ => compare column cast operator n
  | like column _ => like column n
  | columnMatches column _ => columnMatches column n
  | rowMatches table _ => rowMatches table n
  | hasKey table jsonColumn _ => hasKey table jsonColumn n
  | hasKeys table jsonColumn keys => hasKeys table jsonColumn (List.range' n keys.length)
  | isValue column _ => isValue column n
  | isOneOf column values => isOneOf column (List.range' n values.length)
  | isPublic => isPublic
  | always => always

/-- Tests with numbers for their values, counted through from `n`. -/
def numberAll : (n : Nat) → List (Test α) → List (Test Nat)
  | _, [] => []
  | n, t :: ts => t.number n :: numberAll (n + t.values.length) ts

@[simp] theorem values_number (n : Nat) (t : Test α) :
    (t.number n).values = List.range' n t.values.length := by
  cases t <;> rfl

theorem map_number {f : Nat → α} {n : Nat} {t : Test α}
    (h : (List.range' n t.values.length).map f = t.values) : (t.number n).map f = t := by
  -- tests with a list of values take as many numbers as the list has values
  cases t <;> simp_all [number, map, values]

theorem numberAll_append (n : Nat) (ts us : List (Test α)) :
    numberAll n (ts ++ us) = numberAll n ts ++ numberAll (n + (ts.flatMap values).length) us := by
  -- the numbers of the later tests are counted from behind those of the first
  induction ts generalizing n with
  | nil => rfl
  | cons t ts ih => simp [numberAll, ih, Nat.add_assoc]

theorem flatMap_values_numberAll (n : Nat) (ts : List (Test α)) :
    (numberAll n ts).flatMap values = List.range' n (ts.flatMap values).length := by
  induction ts generalizing n with
  | nil => rfl
  | cons t ts ih => simp [numberAll, ih, List.range'_append_1]

/-- Numbers stand for the values in whose places they were put. -/
theorem map_numberAll {f : Nat → α} {n : Nat} {ts : List (Test α)}
    (h : (List.range' n (ts.flatMap values).length).map f = ts.flatMap values) :
    (numberAll n ts).map (map f) = ts := by
  induction ts generalizing n with
  | nil => rfl
  | cons t ts ih =>
    simp only [List.flatMap_cons, List.length_append, ← List.range'_append_1, List.map_append] at h
    -- the numbers of the first test, and those of all others
    obtain ⟨ht, hts⟩ := List.append_inj h (by simp)
    simp [numberAll, map_number ht, ih hts]

end Sql.Test

/-! ## §2 Words and properties -/

/-- The words of a term: what stands between its blanks, without what is empty. -/
def termWords (term : String) : List (List Char) :=
  (term.toList.splitOnP Text.isBlank).filter (· ≠ [])

/-- The words of a term with `&` between them, if it has any. -/
def joinedWords? (term : String) : Option String :=
  if termWords term = [] then none
  else some (String.ofList ([' ', '&', ' '].intercalate (termWords term)))

/-- The JSON column that the value of a column lies in, unless it is an identifier. -/
def Column.place (c : Column) : String × String :=
  (c.table, c.jsonColumn)

/-- The properties of columns by the JSON columns that they lie in. The JSON columns come in the
order in which they are first met, and so do the properties of each, and nothing comes twice. -/
def propertiesByPlace (columns : List Column) : List Drafting.KeyGroup :=
  (columns.map Column.place).eraseDups.map fun place =>
    { table := place.1
      jsonColumn := place.2
      keys := ((columns.filter (·.place = place)).map (·.property)).eraseDups }

/-! ## §3 Leaves -/

/-- The cast under which a column is compared. -/
def Column.castFor (c : Column) (operator : ComparisonOperator) : Option Cast :=
  if operator.isOrdering then c.dataType.cast? else none

namespace Scope

/-- The column that a token stands for, if there is one. -/
def column? (scope : Scope) (token : String) : Option Column :=
  (scope.schema.resolve scope.policy scope.root token).toOption

/-- The properties that have to be there for columns to have a value. Identifiers always have
one. -/
def requested (scope : Scope) (tokens : List String) : List Drafting.KeyGroup :=
  propertiesByPlace ((tokens.filterMap scope.column?).filter (!·.isIdentifier))

/-- The literals of one node in the order in which they are bound. -/
def literals (scope : Scope) : Expression → List String
  | .comparison _ _ term | .like _ term => [term]
  | .range _ spec => (Range.parse? spec).toList.flatMap fun range => range.bounds.map (·.2)
  | .search none term => (joinedWords? term).toList
  | .search (some _) term => (joinedWords? term).toList.flatMap fun text => [text, text]
  | .present tokens => (scope.requested tokens).flatMap (·.keys)
  | .expedition codes => codes
  | .project ids => ids.map fun id => toString id.toInt
  | _ => []

/-- The predicates that one node stands for; all of them have to hold. -/
def predicates (scope : Scope) : Expression → List Predicate
  | .comparison token operator term =>
    (scope.column? token).toList.map fun c => .compare c.access (c.castFor operator) operator term
  | .range token spec =>
    (scope.column? token).toList.flatMap fun c =>
      (Range.parse? spec).toList.flatMap fun range =>
        range.bounds.map fun (operator, value) =>
          .compare c.access (c.castFor operator) operator value
  | .like token term => (scope.column? token).toList.map fun c => .like c.access term
  | .search none term => (joinedWords? term).toList.map (.rowMatches scope.root)
  | .search (some token) term =>
    (scope.column? token).toList.flatMap fun c =>
      (joinedWords? term).toList.flatMap fun text =>
        [.columnMatches c.access text, .rowMatches c.table text]
  | .present tokens =>
    match scope.requested tokens with
    | [] => [.always]
    | groups => groups.map fun g => .hasAll g.table g.jsonColumn g.keys
  | .expedition codes => [.isAmong .code codes]
  | .project ids => [.isAmong .projectId (ids.map fun id => toString id.toInt)]
  | _ => []

end Scope

/-! ## §4 Trees -/

namespace Formula

variable {α : Type}

/-- Two formulas under a connective, of which either may be missing. -/
def combine (connective : Connective) : Option (Formula α) → Option (Formula α) → Option (Formula α)
  | none, right => right
  | left, none => left
  | some left, some right =>
    match connective with
    | .and => some (.and left right)
    | .or => some (.or left right)

end Formula

namespace Expression

/-- The formula that an expression stands for, if it restricts the rows. -/
def formula (scope : Scope) : Expression → Option (Formula Predicate)
  | .not inner => (inner.formula scope).map .not
  | .logical connective left right =>
    Formula.combine connective (left.formula scope) (right.formula scope)
  | .group inner | .selectWith _ inner => inner.formula scope
  | leaf => Formula.conjunction? ((scope.predicates leaf).map .atom)

/-- The literals of an expression from left to right. -/
def literals (scope : Scope) (e : Expression) : List String :=
  e.nodes.flatMap scope.literals

/-- The node tests the rows by itself. -/
def isTest : Expression → Bool
  | .comparison .. | .range .. | .like .. | .search .. | .present .. | .expedition ..
  | .project .. => true
  | _ => false

/-- The expression has a predicate. -/
def restricts (e : Expression) : Bool :=
  e.nodes.any isTest

/-! ## §5 Nesting -/

/-- The connective that stands on top of an expression as it is written. Selections, and connectives
of which one side has no predicate, leave no trace. -/
def outermost : Expression → Option Connective
  | .logical connective left right =>
    if !left.restricts then right.outermost
    else if !right.restricts then left.outermost
    else some connective
  | .selectWith _ inner => inner.outermost
  | _ => none

/-- No operand of a conjunction has a bare disjunction on top, and no operand of a negation has any
bare connective on top. -/
def WellNested : Expression → Prop
  | .not inner => inner.WellNested ∧ inner.outermost = none
  | .logical connective left right =>
    left.WellNested ∧ right.WellNested ∧
      (connective = .and → left.restricts → right.restricts →
        left.outermost ≠ some .or ∧ right.outermost ≠ some .or)
  | .group inner | .selectWith _ inner => inner.WellNested
  | _ => True

/-! ## §6 One node after the other -/

variable (scope : Scope)

theorem nodes_of_isTest {e : Expression} (he : e.isTest) : e.nodes = [e] := by
  cases e <;> first | rfl | simp [isTest] at he

@[simp] theorem restricts_not (inner : Expression) : (not inner).restricts = inner.restricts := by
  simp [restricts, nodes, isTest]

@[simp] theorem restricts_logical (connective : Connective) (left right : Expression) :
    (logical connective left right).restricts = (left.restricts || right.restricts) := by
  simp [restricts, nodes, isTest]

@[simp] theorem restricts_group (inner : Expression) :
    (group inner).restricts = inner.restricts := by
  simp [restricts, nodes, isTest]

@[simp] theorem restricts_selectWith (entities : List String) (inner : Expression) :
    (selectWith entities inner).restricts = inner.restricts := by
  simp [restricts, nodes, isTest]

@[simp] theorem literals_not (inner : Expression) :
    (not inner).literals scope = inner.literals scope := by
  simp [literals, nodes, Scope.literals]

@[simp] theorem literals_logical (connective : Connective) (left right : Expression) :
    (logical connective left right).literals scope =
      left.literals scope ++ right.literals scope := by
  simp [literals, nodes, Scope.literals]

@[simp] theorem literals_group (inner : Expression) :
    (group inner).literals scope = inner.literals scope := by
  simp [literals, nodes, Scope.literals]

@[simp] theorem literals_selectWith (entities : List String) (inner : Expression) :
    (selectWith entities inner).literals scope = inner.literals scope := by
  simp [literals, nodes, Scope.literals]

@[simp] theorem literals_select (entities : List String) :
    (select entities).literals scope = [] := by
  rfl

@[simp] theorem literals_all : all.literals scope = [] := by
  rfl

end Expression

/-! ## §7 A small project -/

/-- Events and the samples taken at them. The URI of one column has a quote in it. -/
def Schema.fieldwork : Schema where
  entities :=
    [⟨"Event", none, "eventID",
      [⟨"eventID", "urn:eventID", .string⟩, ⟨"year", "urn:year", .integer⟩]⟩,
     ⟨"Sample", some "Event", "sampleID",
      [⟨"sampleID", "urn:sampleID", .string⟩, ⟨"genus", "urn:'genus", .string⟩]⟩]
  metadata := []
  valid := by decide

/-- Queries on the events of the small project. -/
def Scope.fieldwork : Scope :=
  { schema := .fieldwork, root := "Event" }

/-- The events since a year without samples of two genera. -/
def Expression.fieldwork : Expression :=
  .logical .and (.range "year" "[2000 TO *]")
    (.not (.group (.logical .or (.like "genus" "Conus%") (.comparison "genus" .eq "Cypraea"))))

end EntityQuery
