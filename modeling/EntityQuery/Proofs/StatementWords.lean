import EntityQuery.Proofs.ClosedStatement
import EntityQuery.Proofs.Sql.Words
import EntityQuery.Proofs.StatementText

/-!
# The words of a compiled statement

Statements write names without quotes. Most of them are fixed, and those of networks and identifiers
have an underscore; none of these is a keyword. What is left are the names of the entities whose
tables are read. A schema may name an entity like a keyword, such as `Order`, and this is the only
way in which the text of a statement is not read back as what was written
(`Schema.compile_reads_back_iff`).
-/

namespace EntityQuery

open Sql (Condition Plain Test Token identifiers keyword? tables)

/-! ## §1 Fixed names -/

/-- The names of columns, functions and types that statements write, whatever the schema is. -/
def systemNames : List String :=
  ["data", "metadata", "tsv", "id", "public", "identifier", "local_identifier",
    "parent_identifier", "expedition_id", "expedition_code", "project_id", "concept_alias",
    "to_tsvector", "to_tsquery", "convert_to_int", "convert_to_float", "convert_to_date",
    "convert_to_datetime", "convert_to_time", "convert_to_bool", "int", "float", "date",
    "timestamp", "time", "boolean"]

theorem keyword?_of_mem_systemNames : ∀ name ∈ systemNames, keyword? name = none := by
  decide

namespace Column

theorem jsonColumn_mem_systemNames (c : Column) : c.jsonColumn ∈ systemNames := by
  unfold jsonColumn
  split <;> simp [systemNames]

theorem columnName_mem_systemNames (c : Column) : c.access.columnName ∈ systemNames := by
  unfold access
  split
  · simp [Access.columnName, systemNames]
  · split
    · simp [Access.columnName, systemNames]
    · exact c.jsonColumn_mem_systemNames

theorem castFor_subset_systemNames (c : Column) (operator : ComparisonOperator) :
    ∀ cast ∈ c.castFor operator, [cast.function, cast.sqlType] ⊆ systemNames := by
  unfold castFor
  split
  · cases c.dataType <;> simp [DataType.cast?, systemNames]
  · simp

end Column

/-- Apart from the table, all names in a predicate are fixed. -/
theorem Scope.IsPredicate.words_subset {scope : Scope} {p : Predicate}
    (h : scope.IsPredicate p) : p.words ⊆ systemNames := by
  -- tables apart, a test has the name of a column, of its cast or of a function
  cases h with
  | @compare _ c h operator value =>
    refine List.cons_subset.mpr ⟨c.columnName_mem_systemNames, ?_⟩
    intro name hname
    obtain ⟨cast, hcast, hname⟩ := List.mem_flatMap.mp hname
    exact c.castFor_subset_systemNames operator cast (Option.mem_toList.mp hcast) hname
  | @like _ c => simpa [Test.words] using c.columnName_mem_systemNames
  | @columnMatches _ c =>
    have hcolumn := c.columnName_mem_systemNames
    rw [Test.words, List.cons_subset, List.cons_subset]
    exact ⟨by simp [systemNames], hcolumn, by simp [systemNames]⟩
  | rowMatches | rootMatches => simp [Test.words, systemNames]
  | @hasAll _ c h keys =>
    unfold Sql.Test.hasAll
    split <;> simpa [Test.words] using c.jsonColumn_mem_systemNames
  | isAmong column values =>
    unfold Sql.Test.isAmong
    split <;> cases column <;> simp [Test.words, Sql.ExpeditionColumn.name, systemNames]
  | always => exact List.nil_subset _

/-! ## §2 Names of tables -/

theorem keyword?_networkSchema (network : Nat) : keyword? (networkSchema network) = none :=
  Sql.keyword?_eq_none_of_underscore (by simp [networkSchema])

theorem keyword?_identifiersName (entity : String) : keyword? (identifiersName entity) = none :=
  Sql.keyword?_eq_none_of_underscore (by simp [identifiersName])

theorem plain_column {table c : String} (htable : keyword? table = none) (hc : c ∈ systemNames) :
    Plain (Sql.column table c) :=
  Sql.plain_column.mpr ⟨htable, keyword?_of_mem_systemNames c hc⟩

theorem plain_entityTable (network : Nat) {entity : String} (h : keyword? entity = none) :
    Plain (entityTable network entity).tokens := by
  simp [entityTable, Sql.TableRef.tokens, Sql.renamed, Token.identifiers, h,
    keyword?_networkSchema]

theorem plain_equal {left right : List Token} (hleft : Plain left) (hright : Plain right) :
    Plain (equal left right) := by
  simp [equal, hleft, hright]

theorem plain_both {left right : List Token} (hleft : Plain left) (hright : Plain right) :
    Plain (both left right) := by
  simp [both, Token.identifiers, hleft, hright]

/-- A join writes only fixed names besides those of the tables that it introduces and reads. -/
theorem JoinStep.plain_toJoin (network : Nat) {step : JoinStep}
    (h : ∀ name ∈ step.reference :: step.reads, keyword? name = none) :
    Plain (step.toJoin network).table.tokens ∧ Plain (step.toJoin network).on := by
  cases step with
  | entity hop =>
    have htable : keyword? hop.table = none := h _ (by simp [reference])
    have hchild : keyword? hop.child = none := h _ (by simp [reads])
    have hparent : keyword? hop.parent = none := h _ (by simp [reads])
    refine ⟨plain_entityTable network htable, plain_both ?_ ?_⟩
    · exact plain_equal (plain_column hchild (by simp [systemNames]))
        (plain_column hparent (by simp [systemNames]))
    · exact plain_equal (plain_column hchild (by simp [systemNames]))
        (plain_column hparent (by simp [systemNames]))
  | identifiers owner =>
    have hname := keyword?_identifiersName owner
    have howner : keyword? owner = none := h _ (by simp [reads])
    have htable : keyword? identifiersTable = none := by decide
    refine ⟨?_, plain_both ?_ ?_⟩
    · simp [toJoin, Sql.TableRef.tokens, Sql.renamed, Token.identifiers, hname, htable]
    · exact plain_equal (plain_column hname (by simp [systemNames]))
        (plain_column howner (by simp [systemNames]))
    · apply plain_equal (plain_column hname (by simp [systemNames]))
      simp [Token.identifiers]
  | expeditions root =>
    have htable : keyword? expeditionsTable = none := by decide
    have hroot : keyword? root = none := h _ (by simp [reads])
    refine ⟨?_, ?_⟩
    · simp [toJoin, Sql.TableRef.tokens, Sql.renamed, Token.identifiers, htable]
    · exact plain_equal (plain_column htable (by simp [systemNames]))
        (plain_column hroot (by simp [systemNames]))

/-! ## §3 Compiled statements -/

/-- What is selected is columns with fixed names. -/
theorem exists_column_of_mem_items {root : String} {owners : List String} {item : Sql.SelectItem}
    (h : item ∈ entityItems root ++ expeditionItems ++ owners.flatMap entityItems) :
    ∃ table, ∃ c ∈ systemNames, item.expr = Sql.column table c := by
  have hentity : ∀ {entity : String}, item ∈ entityItems entity →
      ∃ table, ∃ c ∈ systemNames, item.expr = Sql.column table c := by
    intro entity hitem
    rcases List.mem_pair.mp hitem with rfl | rfl
    · exact ⟨entity, "data", by simp [systemNames], rfl⟩
    · exact ⟨identifiersName entity, "identifier", by simp [systemNames], rfl⟩
  rcases List.mem_append.mp h with h | h
  · rcases List.mem_append.mp h with h | h
    · exact hentity h
    · rcases List.mem_pair.mp h with rfl | rfl
      · exact ⟨expeditionsTable, "expedition_code", by simp [systemNames], rfl⟩
      · exact ⟨expeditionsTable, "project_id", by simp [systemNames], rfl⟩
  · obtain ⟨owner, -, h⟩ := List.mem_flatMap.mp h
    exact hentity h

/-- The restriction to public expeditions adds only fixed names to those of a draft. -/
theorem Draft.plain_filter {d : Draft} (publicOnly : Bool)
    (hwords : ∀ t ∈ Condition.tests d.condition, t.words ⊆ systemNames)
    (htables : ∀ table ∈ tables ((d.filter publicOnly).elim [] Condition.tokens),
      keyword? table = none) : Plain ((d.filter publicOnly).elim [] Condition.tokens) := by
  cases hfilter : d.filter publicOnly with
  | none => exact Sql.plain_nil
  | some c =>
    rw [hfilter] at htables
    apply Condition.plain_of_tables htables
    intro t ht name hname
    apply keyword?_of_mem_systemNames
    have hmem : t ∈ Condition.tests (d.filter publicOnly) := by
      rw [hfilter]
      exact ht
    rcases mem_tests_filter.mp hmem with ht | ⟨-, rfl⟩
    · exact hwords t ht hname
    · obtain rfl := List.mem_singleton.mp hname
      simp [systemNames]

namespace Compiles

variable {s : Schema} {root : String} {e : Expression} {o : CompileOptions} {scope : Scope}
  {d : Draft} {steps : List JoinStep} {q : Sql.Query}

/-- The tests of the draft write only fixed names besides those of tables. -/
theorem words_subset (h : Compiles s root e o scope d steps q) :
    ∀ t ∈ Condition.tests d.condition, t.words ⊆ systemNames := by
  obtain ⟨d', hwrites, -, -⟩ := h.exists_writes
  intro t ht
  have hsubset := (hwrites.isPredicate ht).words_subset
  rwa [Test.words_map] at hsubset

/-- No name in a statement is a keyword if none of its tables is named like one. -/
theorem plainParts (h : Compiles s root e o scope d steps q)
    (hnames : ∀ name ∈ q.introduced, keyword? name = none) : q.PlainParts := by
  have hclosed := h.closed
  have hroot : keyword? scope.root = none := by
    apply hnames
    rw [h.introduced_eq, h.finalJoins_root]
    exact List.mem_cons_self
  constructor
  -- wherever a table is read it is one of those that are introduced
  case select =>
    intro item hitem
    have htables : tables item.expr ⊆ q.introduced := by
      intro table htable
      apply hclosed.select
      rw [Sql.tables_joinedByComma, List.flatMap_map, List.mem_flatMap]
      exact ⟨item, hitem, by rwa [Sql.SelectItem.tables_tokens]⟩
    rw [h.select_eq] at hitem
    obtain ⟨table, c, hc, hexpr⟩ := exists_column_of_mem_items hitem
    rw [hexpr, Sql.tables_column] at htables
    rw [hexpr]
    exact plain_column (hnames table (htables List.mem_cons_self)) hc
  case source =>
    intro t ht
    rw [h.source_eq, ← h.root_eq] at ht
    obtain rfl := Option.some.inj ht
    exact plain_entityTable o.network hroot
  case joins =>
    intro j hj
    have hreads := Sql.Query.reads_subset hclosed.joins hj
    rw [h.joins_eq] at hj
    obtain ⟨step, -, rfl⟩ := List.mem_map.mp hj
    rw [JoinStep.referenceName_toJoin, JoinStep.tables_on_toJoin] at hreads
    exact JoinStep.plain_toJoin o.network fun name hname => hnames name (hreads hname)
  case filter =>
    have htables := hclosed.filter
    rw [h.filter_eq] at htables ⊢
    apply Draft.plain_filter o.publicOnly h.words_subset
    exact fun table htable => hnames table (htables htable)
  case orderBy =>
    intro part hpart
    rw [h.orderBy_eq] at hpart
    rcases List.mem_pair.mp hpart with rfl | rfl
    · exact plain_column hroot (by simp [systemNames])
    · exact plain_column hroot (by simp [systemNames])

/-- The tables of a statement are those of entities, of their identifiers, and the expeditions; only
an entity can have a keyword for its name. -/
theorem exists_entity_of_mem_introduced (h : Compiles s root e o scope d steps q) {name : String}
    (hname : name ∈ q.introduced) (hkeyword : keyword? name ≠ none) :
    ∃ entity ∈ s.entities, entity.name = name := by
  obtain ⟨hops, hplan⟩ := h.exists_isPlan
  rw [h.introduced_eq, hplan.map_reference, List.mem_cons, List.mem_append,
    List.mem_append] at hname
  -- the root, entities on the way, identifiers, expeditions
  rcases hname with rfl | (hname | hname) | hname
  · exact h.sound.root _ List.mem_cons_self
  · exact hplan.declares_hopTables h.sound _ hname
  · obtain ⟨owner, -, rfl⟩ := List.mem_map.mp hname
    exact absurd (keyword?_identifiersName owner) hkeyword
  · split at hname
    · obtain rfl := List.mem_singleton.mp hname
      exact absurd (by decide) hkeyword
    · exact absurd hname List.not_mem_nil

/-- A name in a statement is a keyword exactly if an entity is named like one whose table the
statement introduces. -/
theorem plain_iff (h : Compiles s root e o scope d steps q) :
    Plain q.tokens ↔
      ∀ entity ∈ s.entities, entity.name ∈ q.introduced → keyword? entity.name = none := by
  constructor
  · intro hplain entity _ hintroduced
    exact hplain entity.name (q.introduced_subset_identifiers hintroduced)
  · intro hentities
    apply Sql.Query.PlainParts.plain
    apply h.plainParts
    intro name hname
    -- a table that is named like a keyword would be that of an entity
    by_contra hkeyword
    obtain ⟨entity, hentity, rfl⟩ := h.exists_entity_of_mem_introduced hname hkeyword
    exact hkeyword (hentities entity hentity hname)

end Compiles

/-- The text of a compiled statement is read, word by word and symbol by symbol, as what was
written: nothing is merged with its neighbours or split. Its keywords and identifiers are told apart
as they were written exactly if no entity is named like a keyword whose table the statement
introduces. -/
theorem Schema.compile_reads_back_iff {s : Schema} {root : String} {e : Expression}
    {o : CompileOptions} {p : Sql.Prepared} (h : s.compile root e o = .ok p) :
    ∃ scope d steps q, Compiles s root e o scope d steps q ∧ p = ⟨q.text, d.params⟩ ∧
      Sql.lex? p.text = some (q.tokens.flatMap Token.lexemes) ∧
      (Sql.read? p.text = some (q.tokens.flatMap Token.pieces) ↔
        ∀ entity ∈ s.entities, entity.name ∈ q.introduced → keyword? entity.name = none) := by
  obtain ⟨scope, d, steps, q, hcompiles, rfl⟩ := exists_compiles h
  refine ⟨scope, d, steps, q, hcompiles, rfl, hcompiles.lex?_text, ?_⟩
  -- the text can be taken apart in any case; only the kinds of words are in question
  rw [← hcompiles.plain_iff]
  exact Sql.read?_render_iff hcompiles.spelled.legible

/-- Orders, under a name that is a keyword. -/
def Schema.orders : Schema where
  entities := [⟨"Order", none, "orderID", [⟨"orderID", "urn:orderID", .string⟩]⟩]
  metadata := []
  valid := by decide

/-- A statement on samples is read as it was written. In the statement on all orders a keyword is
read in place of the name of their table. -/
theorem Schema.compile_reads_back_iff_orders :
    (∃ p, ∃ q : Sql.Query, Schema.fieldwork.compile "Sample" .fieldwork {} = .ok p ∧
      p.text = q.text ∧ Sql.read? p.text = some (q.tokens.flatMap Token.pieces)) ∧
    ∃ p, ∃ q : Sql.Query, Schema.orders.compile "Order" .all {} = .ok p ∧ p.text = q.text ∧
      q.introduced = ["Order", "Order_entity_identifiers", "expeditions"] ∧
      keyword? "Order" = some "ORDER" ∧
      Sql.lex? p.text = some (q.tokens.flatMap Token.lexemes) ∧
      Sql.read? p.text ≠ some (q.tokens.flatMap Token.pieces) := by
  constructor
  · have hcompile : Schema.fieldwork.compile "Sample" .fieldwork {} = .ok _ := rfl
    obtain ⟨_, _, _, q, -, hp, -, hiff⟩ := compile_reads_back_iff hcompile
    have hnames : ∀ entity ∈ Schema.fieldwork.entities, keyword? entity.name = none := by decide
    exact ⟨_, q, hcompile, congrArg Sql.Prepared.text hp,
      hiff.mpr fun entity hentity _ => hnames entity hentity⟩
  · have hcompile : Schema.orders.compile "Order" .all {} = .ok _ := rfl
    obtain ⟨scope, d, steps, q, hcompiles, hp, hlex, hiff⟩ := compile_reads_back_iff hcompile
    obtain ⟨limit, rows, -, hassembles⟩ := hcompiles.assembled
    -- the parts of the statement are computed one after the other
    obtain rfl : Scope.mk .orders "Order" .declarationOrder = scope :=
      Except.ok.inj hcompiles.inScope
    obtain rfl := (Prod.mk.inj hcompiles.visited).2
    obtain rfl := Except.ok.inj hassembles.plan
    have hintroduced : q.introduced = ["Order", "Order_entity_identifiers", "expeditions"] := by
      rw [hassembles.query]
      rfl
    have hkeyword : keyword? "Order" = some "ORDER" := by decide
    refine ⟨_, q, hcompile, congrArg Sql.Prepared.text hp, hintroduced, hkeyword, hlex, ?_⟩
    intro hread
    -- the entity that is named like a keyword is the root
    have hnone := hiff.mp hread _ List.mem_cons_self (by rw [hintroduced]; exact List.mem_cons_self)
    rw [hkeyword] at hnone
    exact absurd hnone (by simp)

end EntityQuery
