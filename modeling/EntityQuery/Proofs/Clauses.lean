import EntityQuery.Proofs.Compiled

/-!
# Clauses

A statement may be without WHERE, OFFSET and LIMIT. These words stand in a compiled statement where
the clause begins that they name, and nowhere else: no other part of a statement has one of them
(`Compiles.keyword_mem_tokens_iff`).
-/

namespace EntityQuery

open Sql (Condition JoinType Keyword Query SelectItem Test Token)

namespace Sql

/-! ## §1 Fragments without clauses -/

/-- The words of the clauses that a statement may be without, apart from FROM and ORDER BY, which
compiled statements always have. -/
def Keyword.IsOptional (k : Keyword) : Prop :=
  k = .WHERE ∨ k = .OFFSET ∨ k = .LIMIT

variable {k : Keyword}

theorem keyword_not_mem_column (table name : String) : .keyword k ∉ column table name := by
  simp [column]

theorem keyword_not_mem_access (a : Access) : .keyword k ∉ a.tokens := by
  cases a <;> simp [Access.tokens, keyword_not_mem_column]

theorem keyword_not_mem_placeholders (values : List Nat) :
    .keyword k ∉ commaList (values.map .placeholder) := by
  rw [commaList, mem_joinedByComma (by simp) (by simp)]
  simp

theorem Test.keyword_not_mem (hk : k.IsOptional) (t : Test Nat) : .keyword k ∉ t.tokens := by
  -- the words that tests are written with
  have hother : k ≠ .ILIKE ∧ k ≠ .ARRAY ∧ k ≠ .IN ∧ k ≠ .TRUE := by
    rcases hk with rfl | rfl | rfl <;> simp
  cases t with
  | compare column cast =>
    cases cast <;> simp [tokens, call, parenthesized, spaced, keyword_not_mem_access]
  | _ =>
    simp [tokens, call, searchOf, parenthesized, spaced, keyword_not_mem_access,
      keyword_not_mem_column, keyword_not_mem_placeholders, hother]

theorem Condition.keyword_not_mem (hk : k.IsOptional) (c : Condition) : .keyword k ∉ c.tokens := by
  -- nor are these the words between conditions
  have hother : k ≠ .NOT ∧ k ≠ .AND ∧ k ≠ .OR := by
    rcases hk with rfl | rfl | rfl <;> simp
  induction c with
  | test t => exact t.keyword_not_mem hk
  | not c ih => simp [tokens, hother, ih]
  | and left right ihl ihr => simp [tokens, hother, ihl, ihr]
  | or left right ihl ihr => simp [tokens, hother, ihl, ihr]
  | group c ih => simp [tokens, parenthesized, ih]

/-! ## §2 Clauses of a statement -/

/-- A word that stands in none of its parts stands in a statement where its clause begins. -/
theorem Query.keyword_mem_tokens_iff {q : Query} (hk : k.IsOptional)
    (hselect : ∀ item ∈ q.select, .keyword k ∉ item.tokens)
    (hsource : ∀ table ∈ q.source, .keyword k ∉ table.tokens)
    (hjoins : ∀ j ∈ q.joins, .keyword k ∉ j.tokens) (hfilter : .keyword k ∉ q.filter)
    (horder : ∀ column ∈ q.orderBy, .keyword k ∉ column) :
    .keyword k ∈ q.tokens ↔ k = .WHERE ∧ q.filter ≠ [] ∨ k = .OFFSET ∧ q.offset.isSome ∨
      k = .LIMIT ∧ q.limit.isSome := by
  have hother : k ≠ .SELECT ∧ k ≠ .FROM ∧ k ≠ .ORDER_BY := by
    rcases hk with rfl | rfl | rfl <;> simp
  -- every clause but those of the three words is ruled out, one after the other
  have hitems : .keyword k ∉ joinedByComma (q.select.map SelectItem.tokens) := by
    rw [mem_joinedByComma (by simp) (by simp)]
    simpa using hselect
  have hfrom : .keyword k ∉ clause? .FROM (q.source.map TableRef.tokens) := by
    cases hq : q.source with
    | none => simp [clause?]
    | some table => simp [clause?, clause, hother, hsource table hq]
  have hjoined : .keyword k ∉ q.joins.flatMap (fun j => .space :: j.tokens) := by
    simpa using hjoins
  have hcondition : .keyword k ∈ (if q.filter.isEmpty then [] else clause .WHERE q.filter) ↔
      k = .WHERE ∧ q.filter ≠ [] := by
    split <;> simp_all [clause]
  have hordered : .keyword k ∉
      (if q.orderBy.isEmpty then [] else clause .ORDER_BY (joinedByComma q.orderBy)) := by
    have hcolumns : .keyword k ∉ joinedByComma q.orderBy := by
      rw [mem_joinedByComma (by simp) (by simp)]
      simpa using horder
    split <;> simp [clause, hother, hcolumns]
  have hwindow : ∀ (word : Keyword) (n : Option Nat),
      .keyword k ∈ clause? word (n.map ([.number ·])) ↔ k = word ∧ n.isSome := by
    intro word n
    cases n <;> simp [clause?, clause]
  unfold tokens
  simp only [List.mem_append, List.mem_cons, List.not_mem_nil, hitems, hfrom, hjoined, hcondition,
    hordered, hwindow]
  simp [hother, or_assoc]

end Sql

/-! ## §3 Compiled statements -/

variable {k : Keyword}

theorem keyword_not_mem_entityItems (hk : k.IsOptional) (entity : String) :
    ∀ item ∈ entityItems entity, .keyword k ∉ item.tokens := by
  have hother : k ≠ .AS := by rcases hk with rfl | rfl | rfl <;> simp
  simp [entityItems, SelectItem.tokens, SelectItem.ofColumn, Sql.renamed,
    Sql.keyword_not_mem_column, hother]

theorem keyword_not_mem_expeditionItems (hk : k.IsOptional) :
    ∀ item ∈ expeditionItems, .keyword k ∉ item.tokens := by
  have hother : k ≠ .AS := by rcases hk with rfl | rfl | rfl <;> simp
  simp [expeditionItems, SelectItem.tokens, SelectItem.ofColumn, Sql.renamed,
    Sql.keyword_not_mem_column, hother]

theorem JoinStep.keyword_not_mem (hk : k.IsOptional) (network : Nat) (step : JoinStep) :
    .keyword k ∉ (step.toJoin network).tokens := by
  have hother : k ≠ .JOIN ∧ k ≠ .AS ∧ k ≠ .ON ∧ k ≠ .AND := by
    rcases hk with rfl | rfl | rfl <;> simp
  have htype : ∀ type : JoinType, k ≠ type.keyword := by
    intro type
    rcases hk with rfl | rfl | rfl <;> cases type <;> simp [JoinType.keyword]
  cases step <;> simp [toJoin, Sql.Join.tokens, Sql.TableRef.tokens, Sql.renamed, both, equal,
    Sql.keyword_not_mem_column, Sql.spaced, entityTable, htype, hother]

/-- In a compiled statement each of these words stands before what its clause says, and nowhere
else. -/
theorem Compiles.keyword_mem_tokens_iff {s : Schema} {root : String} {e : Expression}
    {o : CompileOptions} {scope : Scope} {d : Draft} {steps : List JoinStep} {q : Query}
    (h : Compiles s root e o scope d steps q) (hk : k.IsOptional) :
    .keyword k ∈ q.tokens ↔ k = .WHERE ∧ q.filter ≠ [] ∨ k = .OFFSET ∧ q.offset.isSome ∨
      k = .LIMIT ∧ q.limit.isSome := by
  have hother : k ≠ .AS := by rcases hk with rfl | rfl | rfl <;> simp
  apply Query.keyword_mem_tokens_iff hk
  · intro item hitem
    simp only [h.select_eq, List.mem_append, List.mem_flatMap] at hitem
    rcases hitem with (hroot | hexpedition) | ⟨entity, -, hentity⟩
    · exact keyword_not_mem_entityItems hk _ item hroot
    · exact keyword_not_mem_expeditionItems hk item hexpedition
    · exact keyword_not_mem_entityItems hk entity item hentity
  · rw [h.source_eq]
    simp [entityTable, Sql.TableRef.tokens, Sql.renamed, hother]
  · rw [h.joins_eq]
    simp [JoinStep.keyword_not_mem hk]
  · rw [h.filter_eq]
    cases d.filter o.publicOnly with
    | none => simp
    | some c => exact c.keyword_not_mem hk
  · rw [h.orderBy_eq]
    simp [rootOrder, Sql.keyword_not_mem_column]

end EntityQuery
