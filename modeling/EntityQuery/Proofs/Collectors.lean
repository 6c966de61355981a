import EntityQuery.Proofs.PublicOnly
import EntityQuery.Proofs.Selections

/-!
# What is collected and what is read

Who may ask a query is decided from what its tree mentions: the expedition codes, the projects and
the entities that its nodes name, each collected by going through the nodes. The statement comes
about in another way, by a visit that keeps a draft. The two meet at the nodes. The tests of the
statement are the predicates of the nodes (`Writes.map_tests`), and its entities are those that the
nodes select (`Writes.mem_selected`), so nothing is read that is not collected, and nothing is
collected that is not read. What a statement reads is found in its text, between `SELECT` and
`FROM`.
-/

namespace EntityQuery

open Sql (Condition ExpeditionColumn IsReading Params Query Test)

/-! ## §1 Columns of expeditions -/

namespace Sql.Test

variable {α β : Type}

/-- A test compares a column of expeditions with a numbered value: it is written as the column, an
equals sign or `IN`, and placeholders, of which the number has one. -/
def ComparesWith (t : Test Nat) (column : String) (n : Nat) : Prop :=
  ([.name "expeditions", .symbol .dot, .name column, .space, .symbol .eq] <+: t.tokens ∨
    [.name "expeditions", .symbol .dot, .name column, .space, .keyword .IN] <+: t.tokens) ∧
  .placeholder n ∈ t.tokens

/-- The values that a test compares a column of expeditions with. -/
def among (column : ExpeditionColumn) : Test α → List α
  | isValue c value => if c = column then [value] else []
  | isOneOf c values => if c = column then values else []
  | _ => []

section Among

variable (column : ExpeditionColumn)

@[simp] theorem among_compare (access : Access) (cast : Option Cast)
    (operator : ComparisonOperator) (value : α) :
    (compare access cast operator value).among column = [] :=
  rfl

@[simp] theorem among_like (access : Access) (pattern : α) :
    (like access pattern).among column = [] :=
  rfl

@[simp] theorem among_columnMatches (access : Access) (search : α) :
    (columnMatches access search).among column = [] :=
  rfl

@[simp] theorem among_rowMatches (table : String) (search : α) :
    (rowMatches table search).among column = [] :=
  rfl

@[simp] theorem among_always : (always : Test α).among column = [] :=
  rfl

@[simp] theorem among_hasAll (table jsonColumn : String) (keys : List α) :
    (hasAll table jsonColumn keys).among column = [] := by
  unfold hasAll
  split <;> rfl

theorem among_map (f : α → β) (t : Test α) :
    (t.map f).among column = (t.among column).map f := by
  -- a test of another column has nothing among either side
  cases t with
  | isValue c value | isOneOf c values =>
    by_cases hc : c = column <;> simp [map, among, hc]
  | _ => rfl

@[simp] theorem among_isAmong (c : ExpeditionColumn) (values : List α) :
    (isAmong c values).among column = if c = column then values else [] := by
  unfold isAmong
  split <;> rfl

end Among

theorem mem_values_of_mem_among {column : ExpeditionColumn} {t : Test α} {value : α}
    (h : value ∈ t.among column) : value ∈ t.values := by
  cases t with
  | isValue c _ | isOneOf c _ =>
    by_cases hc : c = column
    · simpa [among, values, hc] using h
    · simp [among, hc] at h
  | _ => exact absurd h List.not_mem_nil

/-- A test that is written like one of a column of expeditions is one. -/
theorem comparesWith_iff {t : Test Nat} {column : ExpeditionColumn} {n : Nat} :
    t.ComparesWith column.name n ↔ n ∈ t.among column := by
  unfold ComparesWith
  -- any other test starts with a function or another column, or goes on with another symbol
  cases t with
  | isValue c value | isOneOf c values =>
    cases c <;> cases column <;>
      simp [tokens, among, Sql.column, spaced, ExpeditionColumn.name, expeditionsTable,
        parenthesized]
  | compare access cast =>
    cases cast <;> cases access <;> cases column <;>
      simp [tokens, among, Access.tokens, Sql.column, call, spaced, ExpeditionColumn.name]
  | like access =>
    cases access <;> cases column <;>
      simp [tokens, among, Access.tokens, Sql.column, ExpeditionColumn.name]
  | _ =>
    cases column <;> simp [tokens, among, Sql.column, call, spaced, ExpeditionColumn.name]

end Sql.Test

/-- A value is bound under a number. -/
def Sql.Params.Binds (p : Params) (n : Nat) (value : String) : Prop :=
  (value, n) ∈ p.values.zipIdx 1

theorem Sql.Params.binds_iff {p : Params} {n : Nat} {value : String}
    (hn : n ∈ List.range' 1 p.size) : p.Binds n value ↔ p.valueOf n = value := by
  obtain ⟨hle, hlt⟩ := List.mem_range'_1.mp hn
  have hindex : n - 1 < p.values.length := by
    unfold size at hlt
    omega
  rw [Binds, List.mk_mem_zipIdx_iff_le_and_getElem?_sub, valueOf, List.getD_eq_getElem?_getD,
    List.getElem?_eq_getElem hindex]
  simp [hle]

/-- A statement compares a column of expeditions with a value that is bound for it. -/
def Sql.Query.ComparesWith (q : Query) (p : Params) (column value : String) : Prop :=
  ∃ f, IsReading q.filter f ∧ ∃ t ∈ f.atoms, ∃ n, t.ComparesWith column n ∧ p.Binds n value

/-! ## §2 Tests of conditions and nodes -/

/-- What is read from a condition has its tests, and nothing is read from none. -/
theorem Sql.Condition.exists_isReading_iff {r : Option Condition} {t : Test Nat} :
    (∃ f, IsReading (r.elim [] tokens) f ∧ t ∈ f.atoms) ↔ t ∈ tests r := by
  cases r with
  | none =>
    refine iff_of_false ?_ List.not_mem_nil
    -- something is read from tokens only, and here there are none
    intro h
    obtain ⟨f, hf, -⟩ := h
    exact Reads.ne_nil hf rfl
  | some c =>
    obtain ⟨f, hf, hatoms⟩ := c.exists_isReading
    show _ ↔ t ∈ c.formula.atoms
    rw [← hatoms]
    constructor
    · intro h
      obtain ⟨g, hg, ht⟩ := h
      rwa [hg.unique hf] at ht
    · intro ht
      exact ⟨f, hf, ht⟩

/-- The values that one node tests a column of expeditions for. -/
def Expression.ownAmong : ExpeditionColumn → Expression → List String
  | .code, e => e.ownExpeditionCodes
  | .projectId, e => e.ownProjectIds.map fun id => toString id.toInt

theorem Expression.ownAmong_of_other (column : ExpeditionColumn) {e : Expression}
    (hcodes : e.ownExpeditionCodes = []) (hids : e.ownProjectIds = []) :
    e.ownAmong column = [] := by
  cases column <;> simp [ownAmong, hcodes, hids]

/-- The predicates of a node test the columns of expeditions for what the node mentions. -/
theorem Scope.flatMap_among_predicates (scope : Scope) (column : ExpeditionColumn)
    (e : Expression) : (scope.predicates e).flatMap (Test.among column) = e.ownAmong column := by
  -- no other leaf has a test of a column of expeditions, and inner nodes have no tests
  cases e with
  | expedition codes | project ids =>
    cases column <;> simp [predicates, Expression.ownAmong, Expression.ownExpeditionCodes,
      Expression.ownProjectIds]
  | comparison | range | like =>
    rw [Expression.ownAmong_of_other column rfl rfl]
    simp [predicates, List.flatMap_assoc, List.flatMap_map, List.flatMap_eq_nil_iff]
  | search token =>
    rw [Expression.ownAmong_of_other column rfl rfl]
    cases token <;>
      simp [predicates, List.flatMap_assoc, List.flatMap_map, List.flatMap_eq_nil_iff]
  | present tokens =>
    rw [Expression.ownAmong_of_other column rfl rfl, predicates]
    split <;> simp [List.flatMap_eq_nil_iff]
  | not | logical | group | select | selectWith | all | empty =>
    cases column <;> rfl

/-! ## §3 Visits and statements -/

namespace Writes

variable {scope : Scope} {d d' : Draft} {e : Expression} {r : Option Condition}

/-- The tests of a visit compare the columns of expeditions with what the nodes mention, from left
to right. -/
theorem map_flatMap_among_tests (h : Writes scope d e r d') (column : ExpeditionColumn) :
    ((Condition.tests r).flatMap (Test.among column)).map d'.params.valueOf =
      e.nodes.flatMap (Expression.ownAmong column) :=
  calc
    _ = ((Condition.tests r).map (Test.map d'.params.valueOf)).flatMap (Test.among column) := by
      rw [List.map_flatMap, List.flatMap_map]
      exact List.flatMap_congr fun t _ => (Test.among_map column _ t).symm
    _ = (e.nodes.flatMap scope.predicates).flatMap (Test.among column) := by
      rw [h.map_tests]
    _ = _ := by
      rw [List.flatMap_assoc]
      exact List.flatMap_congr fun node _ => scope.flatMap_among_predicates column node

/-- A visit adds exactly the entities that the nodes select. -/
theorem mem_selected (h : Writes scope d e r d') {name : String} :
    name ∈ d'.joins.selected ↔ name ∈ d.joins.selected ∨
      name ≠ d.joins.root ∧ name ∈ e.nodes.flatMap Expression.ownSelection := by
  -- what a visit selects does not depend on what was selected before, and the root stays the same
  induction h with
  | @test _ _ e _ _ he hjoins h =>
    obtain ⟨_, _, -, -, rfl⟩ := h
    have hnone : e.ownSelection = [] := by
      cases e <;> first | rfl | simp [Expression.isTest] at he
    rw [Expression.nodes_of_isTest he, List.flatMap_singleton, hnone, ← hjoins.selected_eq]
    exact ⟨.inl, fun hname => hname.resolve_right (by simp)⟩
  | not _ ih | group _ ih => simpa [Expression.nodes, Expression.ownSelection] using ih
  | logical _ hl _ ihl ihr =>
    rw [ihr, ihl, hl.joins_root]
    simp [Expression.nodes, Expression.ownSelection, or_assoc, and_or_left]
  | select _ =>
    simp [Draft.withJoins, JoinRequest.mem_selected_foldl_select, Expression.nodes,
      Expression.ownSelection]
  | selectWith _ _ ih =>
    rw [ih]
    simp [Draft.withJoins, JoinRequest.mem_selected_foldl_select, JoinRequest.root_foldl_select,
      Expression.nodes, Expression.ownSelection, or_assoc, and_or_left]
  | all => simp [Expression.nodes, Expression.ownSelection]

end Writes

namespace Compiles

variable {s : Schema} {root : String} {e : Expression} {o : CompileOptions} {scope : Scope}
  {d : Draft} {steps : List JoinStep} {q : Query}

/-- What is read from the WHERE clause has the tests of the draft, and the one of public rows if
that is asked for. -/
theorem exists_isReading_iff (h : Compiles s root e o scope d steps q) {t : Test Nat} :
    (∃ f, IsReading q.filter f ∧ t ∈ f.atoms) ↔
      t ∈ Condition.tests d.condition ∨ o.publicOnly = true ∧ t = .isPublic := by
  rw [h.filter_eq, Condition.exists_isReading_iff, Draft.mem_tests_filter]

/-- The numbers in the tests of a draft are those of its values. -/
theorem binds_iff (h : Compiles s root e o scope d steps q) {t : Test Nat} {n : Nat}
    {value : String} (ht : t ∈ Condition.tests d.condition) (hn : n ∈ t.values) :
    d.params.Binds n value ↔ d.params.valueOf n = value := by
  obtain ⟨d', hwrites, hparams, -⟩ := h.exists_writes
  have hvalues : d.params.values = e.literals scope := by
    rw [← hparams, hwrites.values_params]
    rfl
  apply Params.binds_iff
  have hmem := List.mem_flatMap_of_mem ht hn
  rw [hwrites.flatMap_values_tests, ← hvalues] at hmem
  exact hmem

/-- Whether only public rows are read or not: a statement compares the columns of expeditions with
what the nodes mention. -/
theorem comparesWith_iff (h : Compiles s root e o scope d steps q) {column : ExpeditionColumn}
    {value : String} :
    q.ComparesWith d.params column.name value ↔
      value ∈ e.nodes.flatMap (Expression.ownAmong column) := by
  obtain ⟨d', hwrites, hparams, -⟩ := h.exists_writes
  rw [← hwrites.map_flatMap_among_tests, hparams, List.mem_map]
  constructor
  · intro hcompares
    obtain ⟨f, hf, t, ht, n, hn, hbinds⟩ := hcompares
    rw [Test.comparesWith_iff] at hn
    -- the test of public rows compares with nothing
    rcases h.exists_isReading_iff.mp ⟨f, hf, ht⟩ with hmem | ⟨-, rfl⟩
    · have hvalue := (h.binds_iff hmem (Test.mem_values_of_mem_among hn)).mp hbinds
      exact ⟨n, List.mem_flatMap_of_mem hmem hn, hvalue⟩
    · exact absurd hn List.not_mem_nil
  · intro hvalue
    obtain ⟨n, hn, rfl⟩ := hvalue
    obtain ⟨t, ht, hn⟩ := List.mem_flatMap.mp hn
    obtain ⟨f, hf, hatom⟩ := h.exists_isReading_iff.mpr (.inl ht)
    refine ⟨f, hf, t, hatom, n, Test.comparesWith_iff.mpr hn, ?_⟩
    exact (h.binds_iff ht (Test.mem_values_of_mem_among hn)).mpr rfl

/-- The entities that are shown besides the root are those that the nodes select. -/
theorem mem_selection_iff (h : Compiles s root e o scope d steps q) {name : String} :
    name ∈ d.finalJoins.selection s ↔ name ∈ e.selection ∧ name ≠ root := by
  obtain ⟨d', hwrites, -, hjoins⟩ := h.exists_writes
  -- asking for the expeditions selects nothing
  have hselected : d.finalJoins.selected = d'.joins.selected := by
    rw [hjoins]
    rfl
  have hroot : scope.emptyDraft.joins.root = root := h.root_eq
  have hempty : scope.emptyDraft.joins.selected = [] := rfl
  rw [JoinRequest.selection, Schema.mem_inOrder_iff, hselected, hwrites.mem_selected, hroot, hempty,
    Expression.selection, mem_sortTexts_iff]
  simp [and_comm]

end Compiles

/-! ## §4 What is shown -/

/-- How the columns of an entity are written. -/
def shownColumns (entity : String) : List String :=
  [entity ++ ".data AS \"" ++ entity ++ "_data\"",
   entity ++ "_entity_identifiers.identifier AS \"" ++ entity ++ "_rootIdentifier\""]

/-- How the columns of the expeditions are written. -/
def shownExpedition : List String :=
  ["expeditions.expedition_code AS \"expeditionCode\"", "expeditions.project_id AS \"projectId\""]

namespace Sql

theorem render_joinedByComma (parts : List (List Token)) :
    render (joinedByComma parts) = ", ".intercalate (parts.map render) := by
  induction parts with
  | nil => rfl
  | cons part parts ih =>
    cases parts with
    | nil => simp [joinedByComma, separated]
    | cons second others =>
      have hcomma : render (.symbol .comma :: .space :: joinedByComma (second :: others)) =
          ", " ++ render (joinedByComma (second :: others)) :=
        render_append [.symbol .comma, .space] _
      rw [joinedByComma_cons_cons, render_append, hcomma, ih]
      simp [String.append_assoc]

/-- A column under a label without quotes. -/
theorem render_ofColumn (table name : String) {label : String} (hlabel : isIdentifier label) :
    render (SelectItem.ofColumn table name (some label)).tokens =
      table ++ "." ++ name ++ " AS \"" ++ label ++ "\"" := by
  -- a label is made of characters that need not be written twice
  have hquoted : quoted '"' label = String.ofList ['"'] ++ label ++ String.ofList ['"'] :=
    quoted_of_isIdentifier hlabel rfl
  apply String.toList_injective
  simp [SelectItem.ofColumn, SelectItem.tokens, renamed, column, render, Token.text, Symbol.text,
    Keyword.text, hquoted]

end Sql

theorem render_entityItems {entity : String} (h : isIdentifier entity) :
    (entityItems entity).map (Sql.render ·.tokens) = shownColumns entity := by
  have hname : identifiersName entity = entity ++ "_entity_identifiers" := String.append_assoc
  simp only [entityItems, List.map_cons, List.map_nil, shownColumns, hname]
  rw [Sql.render_ofColumn _ _ (isIdentifier_append h rfl),
    Sql.render_ofColumn _ _ (isIdentifier_append h rfl)]
  simp [String.append_assoc]

theorem render_expeditionItems : expeditionItems.map (Sql.render ·.tokens) = shownExpedition := by
  decide +kernel

/-- The text of a compiled statement starts with the columns of its root, of the expeditions and of
the other entities in its result. -/
theorem Compiles.exists_text_eq {s : Schema} {root : String} {e : Expression} {o : CompileOptions}
    {scope : Scope} {d : Draft} {steps : List JoinStep} {q : Query}
    (h : Compiles s root e o scope d steps q) :
    ∃ rest, q.text = "SELECT " ++ ", ".intercalate (shownColumns root ++ shownExpedition ++
      (d.joins.selection s).flatMap shownColumns) ++ " FROM " ++ rest := by
  -- the names come from the schema, where all of them are identifiers
  have hroot : isIdentifier scope.root := h.isIdentifier_root
  have hselected : ∀ name ∈ d.joins.selection s, isIdentifier name := by
    intro name hname
    exact h.isIdentifier_selected name ((s.mem_inOrder_iff).mp hname)
  have hitems : q.select.map (Sql.render ·.tokens) =
      shownColumns root ++ shownExpedition ++ (d.joins.selection s).flatMap shownColumns := by
    rw [h.select_eq, List.map_append, List.map_append, List.map_flatMap, render_entityItems hroot,
      render_expeditionItems, h.root_eq, h.schema_eq]
    refine congrArg _ (List.flatMap_congr fun name hname => ?_)
    exact render_entityItems (hselected name hname)
  refine ⟨Sql.render ((entityTable o.network root).tokens ++
    q.joins.flatMap (fun j => .space :: j.tokens) ++
    (if q.filter.isEmpty then [] else Sql.clause .WHERE q.filter) ++
    (if q.orderBy.isEmpty then [] else Sql.clause .ORDER_BY (Sql.joinedByComma q.orderBy)) ++
    Sql.clause? .OFFSET (q.offset.map ([.number ·])) ++
    Sql.clause? .LIMIT (q.limit.map ([.number ·]))), ?_⟩
  rw [← hitems, ← Function.comp_def, ← List.map_map, ← Sql.render_joinedByComma]
  have hselect : "SELECT " = Sql.render [.keyword .SELECT, .space] := rfl
  have hfrom : " FROM " = Sql.render [.space, .keyword .FROM, .space] := rfl
  rw [hselect, hfrom, ← Sql.render_append, ← Sql.render_append, ← Sql.render_append]
  simp [Query.text, Query.tokens, h.source_eq, Sql.clause?, Sql.clause]

/-! ## §5 What is collected -/

theorem Expression.mem_nodes_ownAmong_code {e : Expression} {value : String} :
    value ∈ e.nodes.flatMap (ownAmong .code) ↔ value ∈ e.expeditionCodes :=
  mem_sortTexts_iff.symm

theorem Expression.mem_nodes_ownAmong_projectId {e : Expression} {value : String} :
    value ∈ e.nodes.flatMap (ownAmong .projectId) ↔
      value ∈ e.projectIds.map fun id => toString id.toInt := by
  have hids : e.nodes.flatMap (ownAmong .projectId) =
      (e.nodes.flatMap ownProjectIds).map fun id => toString id.toInt :=
    List.map_flatMap.symm
  simp only [hids, List.mem_map, projectIds, mem_sortDistinct_iff isStrictOrder_lt]

/-- What comes later in the order of joins is not an ancestor. -/
theorem Schema.not_atOrAbove_of_isBefore {s : Schema} {earlier later : String}
    (h : s.isBefore earlier later = true) : ¬ s.AtOrAbove later earlier := by
  intro habove
  have hne : later ≠ earlier := by
    intro heq
    exact s.isStrictOrder_isBefore.irrefl earlier (heq ▸ h)
  -- an ancestor lies less deep, and depths do not fall along the order
  have hdepth := habove.depth_lt_of_ne hne
  simp only [isBefore, Bool.or_eq_true, Bool.and_eq_true, decide_eq_true_eq, beq_iff_eq] at h
  omega

/-- A compiled statement compares the codes of expeditions with the collected codes and with no
others, their projects with the collected projects and no others. Its text starts with the columns
that it reads. Besides those of the root and of the expeditions these are the columns of the
collected entities and of no others, each once and ancestors first. -/
theorem Schema.compile_reads_collected {s : Schema} {root : String} {e : Expression}
    {o : CompileOptions} {p : Sql.Prepared} (hp : s.compile root e o = .ok p) :
    ∃ scope d steps q, Compiles s root e o scope d steps q ∧ p = ⟨q.text, d.params⟩ ∧
      (∀ value, q.ComparesWith p.params "expedition_code" value ↔ value ∈ e.expeditionCodes) ∧
      (∀ value, q.ComparesWith p.params "project_id" value ↔
        value ∈ e.projectIds.map fun id => toString id.toInt) ∧
      ∃ shown : List String, ∃ rest,
        p.text = "SELECT " ++ ", ".intercalate (shownColumns root ++ shownExpedition ++
          shown.flatMap shownColumns) ++ " FROM " ++ rest ∧
        (∀ name, name ∈ shown ↔ name ∈ e.selection ∧ name ≠ root) ∧ shown.Nodup ∧
        shown.Pairwise fun earlier later => ¬ s.AtOrAbove later earlier := by
  obtain ⟨scope, d, steps, q, hcompiles, rfl⟩ := exists_compiles hp
  obtain ⟨rest, htext⟩ := hcompiles.exists_text_eq
  refine ⟨scope, d, steps, q, hcompiles, rfl, ?_, ?_, d.joins.selection s, rest, htext, ?_, ?_, ?_⟩
  · intro value
    exact hcompiles.comparesWith_iff.trans Expression.mem_nodes_ownAmong_code
  · intro value
    exact hcompiles.comparesWith_iff.trans Expression.mem_nodes_ownAmong_projectId
  · intro name
    exact hcompiles.mem_selection_iff
  · exact s.nodup_inOrder _
  · exact (s.pairwise_inOrder d.joins.selected).imp Schema.not_atOrAbove_of_isBefore

/-- Samples of two expeditions outside of a project. -/
def Expression.outsideProject : Expression :=
  .logical .and (.group (.selectWith ["Sample", "Event"] (.expedition ["MBIO", "PSAM"])))
    (.not (.project [7]))

/-- The codes and the project are told apart, and the root is not shown twice. -/
theorem Schema.compile_reads_collected_fieldwork :
    ∃ p rest, ∃ q : Query,
      Schema.fieldwork.compile "Event" .outsideProject { publicOnly := true } = .ok p ∧
      p.text = q.text ∧ q.ComparesWith p.params "expedition_code" "PSAM" ∧
      ¬ q.ComparesWith p.params "expedition_code" "7" ∧ q.ComparesWith p.params "project_id" "7" ∧
      p.text = "SELECT " ++ ", ".intercalate
        ["Event.data AS \"Event_data\"",
         "Event_entity_identifiers.identifier AS \"Event_rootIdentifier\"",
         "expeditions.expedition_code AS \"expeditionCode\"",
         "expeditions.project_id AS \"projectId\"",
         "Sample.data AS \"Sample_data\"",
         "Sample_entity_identifiers.identifier AS \"Sample_rootIdentifier\""] ++
        " FROM " ++ rest := by
  obtain ⟨p, hp⟩ : ∃ p,
      Schema.fieldwork.compile "Event" .outsideProject { publicOnly := true } = .ok p :=
    exists_of_isOk (by decide +kernel)
  obtain ⟨_, _, _, q, -, htext, hcodes, hprojects, shown, rest, hshows, hshown, hnodup, -⟩ :=
    compile_reads_collected hp
  have hexpeditions : Expression.outsideProject.expeditionCodes = ["MBIO", "PSAM"] := by decide
  have hids : Expression.outsideProject.projectIds = [7] := by decide
  have hentities : Expression.outsideProject.selection = ["Event", "Sample"] := by decide
  have honly : shown = ["Sample"] := by
    apply List.perm_singleton.mp
    refine (List.perm_ext_iff_of_nodup hnodup (List.nodup_singleton _)).mpr fun name => ?_
    rw [hshown, hentities, List.mem_pair, List.mem_singleton]
    constructor
    · exact fun ⟨hname, hne⟩ => hname.resolve_left hne
    · rintro rfl
      exact ⟨.inr rfl, by decide⟩
  refine ⟨p, rest, q, hp, congrArg Sql.Prepared.text htext, ?_, ?_, ?_, ?_⟩
  · exact (hcodes "PSAM").mpr (by simp [hexpeditions])
  · exact fun h => absurd ((hcodes "7").mp h) (by simp [hexpeditions])
  · exact (hprojects "7").mpr (by simp [hids]; rfl)
  · rw [hshows, honly]
    exact congrArg (· ++ rest) (by decide +kernel)

end EntityQuery
