import EntityQuery.Proofs.Meaning
import EntityQuery.Proofs.Sql.Reading
import EntityQuery.Sql.Query

/-!
# Tables that a statement reads

A fragment reads a table wherever a name with a dot stands in it. A statement is closed if it reads
only tables that it introduces: those that are joined, in the order in which they are joined, and
the one that it starts from.
-/

namespace EntityQuery

namespace Sql

/-! ## §1 Fragments -/

/-- The tables that a fragment reads from left to right: the names with a dot after them. -/
def tables : List Token → List String
  | [] => []
  | .name table :: rest =>
    if rest.head? = some (.symbol .dot) then table :: tables rest else tables rest
  | _ :: rest => tables rest

@[simp] theorem tables_nil : tables [] = [] :=
  rfl

@[simp] theorem tables_column (table c : String) : tables (column table c) = [table] := by
  rfl

/-- Only a name can stand for a table. -/
@[simp] theorem tables_cons {t : Token} (ht : ∀ s, t ≠ .name s) (us : List Token) :
    tables (t :: us) = tables us := by
  cases t with
  | name s => exact absurd rfl (ht s)
  | _ => rfl

/-- A fragment reads its own tables, if no dot is put behind it. -/
@[simp] theorem tables_append_cons {t : Token} (ht : t ≠ .symbol .dot) (us vs : List Token) :
    tables (us ++ t :: vs) = tables us ++ tables (t :: vs) := by
  induction us with
  | nil => rfl
  | cons u us ih =>
    -- whether the last name before the token is a table depends on that token
    cases u with
    | name s =>
      cases us with
      | nil => simp [tables, ht]
      | cons v us =>
        -- what comes after the name is the same on both sides
        by_cases hdot : v = .symbol .dot
        · subst hdot
          exact congrArg (s :: ·) ih
        · simpa [tables, hdot] using ih
    | _ => exact ih

@[simp] theorem tables_parenthesized (us : List Token) : tables (parenthesized us) = tables us := by
  simp [parenthesized]

@[simp] theorem tables_joinedByComma (parts : List (List Token)) :
    -- neither a comma nor a blank is a dot or a name
    tables (joinedByComma parts) = parts.flatMap tables := by
  induction parts with
  | nil => rfl
  | cons part parts ih =>
    cases parts with
    | nil => simp [joinedByComma, separated]
    | cons second others =>
      rw [joinedByComma_cons_cons, tables_append_cons (by simp), tables_cons (by simp),
        tables_cons (by simp), ih]
      rfl

theorem tables_commaList_placeholders (numbers : List Nat) :
    tables (commaList (numbers.map .placeholder)) = [] := by
  simp [commaList]

@[simp] theorem tables_call (name : String) (argument : List Token) :
    tables (call name argument) = tables argument := by
  simp [call]

@[simp] theorem SelectItem.tables_tokens (item : SelectItem) :
    tables item.tokens = tables item.expr := by
  cases h : item.label <;> simp [tokens, renamed, h]

end Sql

/-! ## §2 Conditions -/

/-- The table that a value is read from. -/
def Access.table : Access → String
  | .localIdentifier table | .parentIdentifier table | .property table _ _ => table

@[simp] theorem Access.tables_tokens (column : Access) :
    Sql.tables column.tokens = [column.table] := by
  cases column <;> rfl

@[simp] theorem Column.table_access (c : Column) : c.access.table = c.table := by
  unfold access
  split
  · rfl
  · split <;> rfl

namespace Sql

namespace Test

variable {α β : Type}

/-- The table that a test reads, if it reads one. -/
def table? : Test α → Option String
  | compare column .. | like column _ | columnMatches column _ => some column.table
  | rowMatches table _ | hasKey table _ _ | hasKeys table _ _ => some table
  | isValue .. | isOneOf .. | isPublic => some expeditionsTable
  | always => none

@[simp] theorem table?_map (f : α → β) (t : Test α) : (t.map f).table? = t.table? := by
  cases t <;> rfl

@[simp] theorem table?_hasAll (table jsonColumn : String) (keys : List α) :
    (hasAll table jsonColumn keys).table? = some table := by
  unfold hasAll
  split <;> rfl

@[simp] theorem table?_isAmong (column : ExpeditionColumn) (values : List α) :
    (isAmong column values).table? = some expeditionsTable := by
  unfold isAmong
  split <;> rfl

@[simp] theorem tables_tokens (t : Test Nat) : tables t.tokens = t.table?.toList := by
  -- no function and no cast of a test is the name of a table
  cases t with
  | compare column cast operator value => cases cast <;> simp [tokens, table?, spaced]
  | _ => simp [tokens, table?, spaced, searchOf, tables_commaList_placeholders]

end Test

/-- A condition reads the tables of its tests. -/
theorem Condition.tables_tokens (c : Condition) :
    tables c.tokens = c.formula.atoms.filterMap Test.table? := by
  induction c with
  | test t => cases h : t.table? <;> simp [tokens, formula, Formula.atoms, h]
  | not c ih | group c ih => simp [tokens, formula, Formula.atoms, ih]
  | and left right ihl ihr | or left right ihl ihr =>
    simp [tokens, formula, Formula.atoms, ihl, ihr]

/-! ## §3 Statements -/

/-- Joins each of which reads only tables that are present: itself, those that are joined before
it, and those that were there at the start. -/
def JoinsClosed : (present : List String) → List Join → Prop
  | _, [] => True
  | present, j :: joins =>
    tables j.on ⊆ j.referenceName :: present ∧ JoinsClosed (j.referenceName :: present) joins

namespace JoinsClosed

variable {present present' : List String} {joins others : List Join}

theorem mono (h : JoinsClosed present joins) (hsubset : present ⊆ present') :
    JoinsClosed present' joins := by
  induction joins generalizing present present' with
  | nil => trivial
  | cons j joins ih =>
    have hcons := List.cons_subset_cons j.referenceName hsubset
    exact ⟨List.Subset.trans h.1 hcons, ih h.2 hcons⟩

theorem append (h : JoinsClosed present joins)
    (h' : JoinsClosed (joins.map Join.referenceName ++ present) others) :
    JoinsClosed present (joins ++ others) := by
  induction joins generalizing present with
  | nil => exact h'
  | cons j joins ih =>
    exact ⟨h.1, ih h.2 (h'.mono List.perm_middle.symm.subset)⟩

/-- Joins read what they introduce and what is there before them. -/
theorem reads_subset {before after : List Join} {j : Join} (h : JoinsClosed present joins)
    (heq : joins = before ++ j :: after) :
    tables j.on ⊆ j.referenceName :: (present ++ before.map Join.referenceName) := by
  -- present are the start and the joins that were passed, and this one is the next
  induction before generalizing present joins with
  | nil =>
    subst heq
    simpa using h.1
  | cons first before ih =>
    subst heq
    refine List.Subset.trans (ih h.2 rfl) (List.cons_subset_cons _ ?_)
    exact List.perm_middle.symm.subset

end JoinsClosed

namespace Query

/-- The names under which a statement introduces the table that it starts from. -/
def start (q : Query) : List String :=
  q.source.toList.map TableRef.referenceName

/-- The names under which a statement introduces its tables. -/
def introduced (q : Query) : List String :=
  q.start ++ q.joins.map Join.referenceName

/-- A statement that reads only tables that it introduces, and introduces them before it joins
others to them. -/
structure Closed (q : Query) : Prop where
  select : tables (joinedByComma (q.select.map SelectItem.tokens)) ⊆ q.introduced
  joins : JoinsClosed q.start q.joins
  filter : tables q.filter ⊆ q.introduced
  orderBy : tables (joinedByComma q.orderBy) ⊆ q.introduced

theorem reads_subset {q : Query} (hclosed : JoinsClosed q.start q.joins) {j : Join}
    (hj : j ∈ q.joins) : j.referenceName :: tables j.on ⊆ q.introduced := by
  obtain ⟨before, after, heq⟩ := List.append_of_mem hj
  have hname : j.referenceName ∈ q.introduced :=
    List.mem_append_right _ (List.mem_map_of_mem hj)
  have hbefore : q.start ++ before.map Join.referenceName ⊆ q.introduced := by
    rw [introduced, heq, List.map_append, ← List.append_assoc]
    exact List.subset_append_left _ _
  exact List.cons_subset.mpr ⟨hname, List.Subset.trans (hclosed.reads_subset heq)
    (List.cons_subset.mpr ⟨hname, hbefore⟩)⟩

end Query

end Sql

end EntityQuery
