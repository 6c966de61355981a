import EntityQuery.Proofs.Compiled
import EntityQuery.Proofs.Sql.Legible

/-!
# The text of a compiled statement

The text of a statement is read back as the tokens that it was written from. So what stands in it
between quotes are the labels, names and properties that were put there, whatever characters these
have, and its placeholders are the keys of the bound values, each once and in order.
-/

namespace EntityQuery

open Sql (Condition Legible Lexeme Test Token legible_column)

/-! ## §1 Names of tests -/

namespace Column

theorem spelled_access {c : Column} (h : EntityQuery.isIdentifier c.table) : c.access.Spelled := by
  -- the column of the table, its own or its parent's identifier, or a property in JSON
  unfold access
  split
  · exact h
  · split
    · exact h
    · exact ⟨h, Schema.isIdentifier_jsonColumn c⟩

theorem spelled_castFor (c : Column) (operator : ComparisonOperator) :
    ∀ cast ∈ c.castFor operator, cast.Spelled := by
  unfold castFor
  split
  · cases c.dataType <;> simp [DataType.cast?, Cast.Spelled] <;> decide
  · simp

end Column

namespace Scope

variable {scope : Scope}

theorem isIdentifier_table_of_column? {token : String} {c : Column}
    (h : scope.column? token = some c) : isIdentifier c.table := by
  unfold column? at h
  cases hresolve : scope.schema.resolve scope.policy scope.root token with
  | error e => simp [hresolve, Except.toOption] at h
  | ok c' =>
    obtain rfl : c' = c := by simpa [hresolve, Except.toOption] using h
    exact Schema.isIdentifier_table_of_resolve hresolve

theorem spelled_hasAll {α : Type} {table jsonColumn : String} {keys : List α}
    (h : isIdentifier table ∧ isIdentifier jsonColumn) :
    (Test.hasAll table jsonColumn keys).Spelled := by
  unfold Sql.Test.hasAll
  split <;> exact h

/-- The tests that predicates are: of a column that a token stands for, of the root, and of the
expeditions. -/
inductive IsPredicate (scope : Scope) : Predicate → Prop
  | compare {token : String} {c : Column} (h : scope.column? token = some c)
      (operator : ComparisonOperator) (value : String) :
      IsPredicate scope (.compare c.access (c.castFor operator) operator value)
  | like {token : String} {c : Column} (h : scope.column? token = some c) (pattern : String) :
      IsPredicate scope (.like c.access pattern)
  | columnMatches {token : String} {c : Column} (h : scope.column? token = some c)
      (search : String) : IsPredicate scope (.columnMatches c.access search)
  | rowMatches {token : String} {c : Column} (h : scope.column? token = some c)
      (search : String) : IsPredicate scope (.rowMatches c.table search)
  | rootMatches (search : String) : IsPredicate scope (.rowMatches scope.root search)
  | hasAll {token : String} {c : Column} (h : scope.column? token = some c)
      (keys : List String) : IsPredicate scope (.hasAll c.table c.jsonColumn keys)
  | isAmong (column : Sql.ExpeditionColumn) (values : List String) :
      IsPredicate scope (.isAmong column values)
  | always : IsPredicate scope .always

/-- These are all the predicates that a node stands for. -/
theorem isPredicate_of_mem {e : Expression} {p : Predicate} (hp : p ∈ scope.predicates e) :
    scope.IsPredicate p := by
  -- each leaf has one kind of predicate, but for searches in a column and for presence
  cases e with
  | comparison token operator term =>
    obtain ⟨c, hc, rfl⟩ := List.mem_map.mp hp
    exact .compare (Option.mem_toList.mp hc) operator term
  | range token spec =>
    obtain ⟨c, hc, hp⟩ := List.mem_flatMap.mp hp
    obtain ⟨range, -, hp⟩ := List.mem_flatMap.mp hp
    obtain ⟨⟨operator, value⟩, -, rfl⟩ := List.mem_map.mp hp
    exact .compare (Option.mem_toList.mp hc) operator value
  | like token term =>
    obtain ⟨c, hc, rfl⟩ := List.mem_map.mp hp
    exact .like (Option.mem_toList.mp hc) term
  | search column term =>
    cases column with
    | none =>
      obtain ⟨text, -, rfl⟩ := List.mem_map.mp hp
      exact .rootMatches text
    | some token =>
      obtain ⟨c, hc, hp⟩ := List.mem_flatMap.mp hp
      obtain ⟨text, -, hp⟩ := List.mem_flatMap.mp hp
      rcases List.mem_cons.mp hp with rfl | hp
      · exact .columnMatches (Option.mem_toList.mp hc) text
      · obtain rfl := List.mem_singleton.mp hp
        exact .rowMatches (Option.mem_toList.mp hc) text
  | present tokens =>
    -- a group has the names of a column in it
    simp only [predicates] at hp
    split at hp
    · obtain rfl := List.mem_singleton.mp hp
      exact .always
    · obtain ⟨g, hg, rfl⟩ := List.mem_map.mp hp
      obtain ⟨c, hc, htable, hjson⟩ := Drafting.exists_column_of_mem_propertiesByPlace hg
      obtain ⟨token, -, htoken⟩ := List.mem_filterMap.mp (List.mem_filter.mp hc).1
      rw [htable, hjson]
      exact .hasAll htoken g.keys
  | expedition codes | project ids =>
    obtain rfl := List.mem_singleton.mp hp
    exact .isAmong _ _
  | not | logical | group | select | selectWith | all | empty => exact absurd hp List.not_mem_nil

/-- The names in a predicate are identifiers. -/
theorem IsPredicate.spelled {p : Predicate} (h : scope.IsPredicate p)
    (hroot : isIdentifier scope.root) : p.Spelled := by
  cases h with
  -- what is read is a column that a token stands for, and its table is one of the schema
  | compare h operator value =>
    have htable := isIdentifier_table_of_column? h
    exact ⟨Column.spelled_access htable, Column.spelled_castFor _ operator⟩
  | like h | columnMatches h => exact Column.spelled_access (isIdentifier_table_of_column? h)
  | rowMatches h => exact isIdentifier_table_of_column? h
  | rootMatches => exact hroot
  | @hasAll _ c h =>
    exact spelled_hasAll ⟨isIdentifier_table_of_column? h, Schema.isIdentifier_jsonColumn c⟩
  | isAmong =>
    unfold Sql.Test.isAmong
    split <;> trivial
  | always => trivial

end Scope

@[simp] theorem Sql.Test.spelled_map {α β : Type} (f : α → β) (t : Test α) :
    (t.map f).Spelled ↔ t.Spelled := by
  cases t <;> exact Iff.rfl

/-- The tests in the condition of an expression are predicates, with numbers in place of values. -/
theorem Writes.isPredicate {scope : Scope} {d d' : Draft} {e : Expression} {r : Option Condition}
    (h : Writes scope d e r d') {t : Test Nat} (ht : t ∈ Condition.tests r) :
    scope.IsPredicate (t.map d'.params.valueOf) := by
  have hmem : t.map d'.params.valueOf ∈ e.nodes.flatMap scope.predicates := by
    rw [← h.map_tests]
    exact List.mem_map_of_mem ht
  obtain ⟨node, -, hp⟩ := List.mem_flatMap.mp hmem
  exact Scope.isPredicate_of_mem hp

/-- The names in the condition of an expression are identifiers. -/
theorem Writes.spelled {scope : Scope} {d d' : Draft} {e : Expression} {r : Option Condition}
    (h : Writes scope d e r d') (hroot : isIdentifier scope.root) :
    ∀ c ∈ r, ∀ t ∈ c.formula.atoms, t.Spelled := by
  intro c hc t ht
  have hpredicate := h.isPredicate (Condition.mem_tests.mpr ⟨c, hc, ht⟩)
  -- names do not change when numbers are replaced by values
  exact (Sql.Test.spelled_map _ t).mp (hpredicate.spelled hroot)

/-! ## §2 Names of joins -/

theorem isIdentifier_append {s t : String} (hs : isIdentifier s)
    (ht : t.toList.all isIdentifierPart) : isIdentifier (s ++ t) := by
  obtain ⟨c, cs, hc, hstart, hparts⟩ := Sql.Mode.exists_identifierStart hs
  have htext : (s ++ t).toList = c :: (cs ++ t.toList) := by
    -- the first name has a character that may come first, and it stays the first
    rw [String.toList_append, hc, List.cons_append]
  rw [isIdentifier, htext]
  simp only [Bool.and_eq_true, List.all_append]
  exact ⟨hstart, List.all_eq_true.mpr hparts, ht⟩

theorem isIdentifier_networkSchema (network : Nat) : isIdentifier (networkSchema network) := by
  apply isIdentifier_append rfl
  obtain ⟨d, ds, hn, hdigits⟩ := Sql.Mode.exists_digits network
  rw [hn, List.all_eq_true]
  intro c hc
  simp [isIdentifierPart, Char.isAlphanum, hdigits c hc]

theorem isIdentifier_identifiersName {entity : String} (h : isIdentifier entity) :
    isIdentifier (identifiersName entity) :=
  isIdentifier_append (isIdentifier_append h rfl) rfl

/-- The names in a step of a plan are identifiers. -/
def JoinStep.Spelled : JoinStep → Prop
  | entity hop => hop.Spelled
  | identifiers owner => isIdentifier owner
  | expeditions root => isIdentifier root

theorem JoinRequest.spelled_of_plan {s : Schema} {r : JoinRequest} {steps : List JoinStep}
    (h : r.plan s = .ok steps) (hroot : isIdentifier r.root)
    (hselected : ∀ name ∈ r.selected, isIdentifier name) : ∀ step ∈ steps, step.Spelled := by
  unfold plan at h
  obtain ⟨hops, hhops, h⟩ := exists_of_bind_eq_ok h
  obtain rfl := Except.ok.inj h
  intro step hstep
  rw [List.mem_append, List.mem_append] at hstep
  -- entities, then identifiers, then expeditions
  rcases hstep with (hstep | hstep) | hstep
  · obtain ⟨hop, hhop, rfl⟩ := List.mem_map.mp hstep
    exact spelled_of_routes hhops hop (mem_of_mem_newHops hhop)
  · obtain ⟨owner, howner, rfl⟩ := List.mem_map.mp hstep
    rcases List.mem_cons.mp howner with rfl | howner
    · exact hroot
    · exact hselected owner (mem_of_mem_sortDistinct howner)
  · split at hstep
    · obtain rfl := List.mem_singleton.mp hstep
      exact hroot
    · exact absurd hstep List.not_mem_nil

theorem spelled_entityTable (network : Nat) {entity : String} (h : isIdentifier entity) :
    (entityTable network entity).Spelled where
  schema := by
    rintro s ⟨⟩
    exact isIdentifier_networkSchema network
  table := h
  rename := by
    rintro s ⟨⟩
    exact h

theorem legible_both {left right : List Token} (hleft : Legible left) (hright : Legible right) :
    Legible (both left right) := by
  simp [both, Sql.legible_cons, hleft, hright]

theorem legible_equal {left right : List Token} (hleft : Legible left) (hright : Legible right) :
    Legible (equal left right) := by
  simp [equal, Sql.spaced, Sql.legible_cons, Token.Spelled, hleft, hright]

theorem JoinStep.Spelled.toJoin (network : Nat) {step : JoinStep} (h : step.Spelled) :
    (step.toJoin network).table.Spelled ∧ Legible (step.toJoin network).on := by
  -- all that is written in a join condition is two columns, or a column and a text
  cases step with
  | entity hop =>
    refine ⟨spelled_entityTable network h.table, legible_both ?_ ?_⟩
    · exact legible_equal (legible_column h.child rfl)
        (legible_column h.parent rfl)
    · exact legible_equal (legible_column h.child rfl)
        (legible_column h.parent rfl)
  | identifiers owner =>
    have hname := isIdentifier_identifiersName h
    have htable : isIdentifier identifiersTable := rfl
    refine ⟨⟨by rintro s ⟨⟩, htable, by rintro s ⟨⟩; exact hname⟩, legible_both ?_ ?_⟩
    · exact legible_equal (legible_column hname rfl) (legible_column h rfl)
    · exact legible_equal (legible_column hname rfl) (Sql.legible_token trivial)
  | expeditions root =>
    have htable : isIdentifier expeditionsTable := rfl
    refine ⟨⟨by rintro s ⟨⟩, htable, by rintro s ⟨⟩⟩, ?_⟩
    exact legible_equal (legible_column rfl rfl) (legible_column h rfl)

/-! ## §3 Compiled statements -/

theorem spelled_entityItems {entity : String} (h : isIdentifier entity) :
    ∀ item ∈ entityItems entity, Legible item.expr ∧ ∀ label ∈ item.label, label ≠ "" := by
  intro item hitem
  rcases List.mem_cons.mp hitem with rfl | hitem
  · refine ⟨legible_column h rfl, ?_⟩
    rintro label ⟨⟩
    simp
  · obtain rfl := List.mem_singleton.mp hitem
    refine ⟨legible_column (isIdentifier_identifiersName h) rfl, ?_⟩
    rintro label ⟨⟩
    simp

theorem spelled_expeditionItems :
    ∀ item ∈ expeditionItems, Legible item.expr ∧ ∀ label ∈ item.label, label ≠ "" := by
  have hcolumn : ∀ {c : String}, isIdentifier c → Legible (Sql.column expeditionsTable c) :=
    legible_column rfl
  intro item hitem
  rcases List.mem_cons.mp hitem with rfl | hitem
  · exact ⟨hcolumn rfl, by rintro label ⟨⟩; decide⟩
  · obtain rfl := List.mem_singleton.mp hitem
    exact ⟨hcolumn rfl, by rintro label ⟨⟩; decide⟩

theorem Draft.legible_filter {d : Draft} (publicOnly : Bool)
    (h : ∀ c ∈ d.condition, ∀ t ∈ c.formula.atoms, t.Spelled) :
    Legible ((d.filter publicOnly).elim [] Condition.tokens) := by
  cases hfilter : d.filter publicOnly with
  | none => exact Sql.legible_nil
  | some c =>
    -- the test of public expeditions has no name from a schema in it
    apply Condition.legible
    intro t ht
    have hmem : t ∈ Condition.tests (d.filter publicOnly) := by
      rw [hfilter]
      exact ht
    rcases mem_tests_filter.mp hmem with ht | ⟨-, rfl⟩
    · obtain ⟨c, hc, ht⟩ := Condition.mem_tests.mp ht
      exact h c hc t ht
    · trivial

/-- The names that a statement takes over from its draft are identifiers. -/
structure Draft.Spelled (d : Draft) (scope : Scope) : Prop where
  root_eq : d.joins.root = scope.root
  root : isIdentifier scope.root
  selected : ∀ name ∈ d.joins.selected, isIdentifier name
  tests : ∀ c ∈ d.condition, ∀ t ∈ c.formula.atoms, t.Spelled

namespace Assembles

variable {d : Draft} {scope : Scope} {network : Nat} {publicOnly : Bool} {p : Pagination}
  {steps : List JoinStep} {rows : Option Window} {q : Sql.Query}

/-- The names in an assembled statement are identifiers, and its fragments are legible. -/
theorem spelled (h : Assembles d scope network publicOnly p steps rows q) (hd : d.Spelled scope) :
    q.Spelled := by
  have hroot : isIdentifier d.finalJoins.root := hd.root_eq.symm ▸ hd.root
  -- the plan is made for the root of the scope
  have hsteps := JoinRequest.spelled_of_plan h.plan hroot hd.selected
  obtain rfl := h.query
  constructor
  · intro item hitem
    rcases List.mem_append.mp hitem with hitem | hitem
    · rcases List.mem_append.mp hitem with hitem | hitem
      · exact spelled_entityItems hd.root item hitem
      · exact spelled_expeditionItems item hitem
    · obtain ⟨name, hname, hitem⟩ := List.mem_flatMap.mp hitem
      exact spelled_entityItems (hd.selected name (JoinRequest.mem_of_mem_sortDistinct hname))
        item hitem
  · rintro t ⟨⟩
    exact spelled_entityTable network hd.root
  · intro j hj
    obtain ⟨step, hstep, rfl⟩ := List.mem_map.mp hj
    exact (hsteps step hstep).toJoin network
  · exact Draft.legible_filter publicOnly hd.tests
  · intro part hpart
    rcases List.mem_cons.mp hpart with rfl | hpart
    · exact legible_column hd.root rfl
    · obtain rfl := List.mem_singleton.mp hpart
      exact legible_column hd.root rfl

/-- The text of an assembled statement is read back as the tokens that it was written from. -/
theorem lex?_text (h : Assembles d scope network publicOnly p steps rows q)
    (hd : d.Spelled scope) : Sql.lex? q.text = some (q.tokens.flatMap Token.lexemes) :=
  Sql.lex?_render (h.spelled hd).legible

end Assembles

namespace Compiles

variable {s : Schema} {root : String} {e : Expression} {o : CompileOptions} {scope : Scope}
  {d : Draft} {steps : List JoinStep} {q : Sql.Query}

theorem isIdentifier_root (h : Compiles s root e o scope d steps q) : isIdentifier scope.root :=
  h.declares_root.isIdentifier scope.root List.mem_cons_self

theorem isIdentifier_selected (h : Compiles s root e o scope d steps q) :
    ∀ name ∈ d.joins.selected, isIdentifier name := by
  obtain ⟨d', hwrites, -, hjoins⟩ := h.exists_writes
  have hdeclares := hwrites.declares_selected fun name hname => absurd hname List.not_mem_nil
  rw [hjoins, h.schema_eq] at hdeclares
  exact hdeclares.isIdentifier

theorem joins_root (h : Compiles s root e o scope d steps q) : d.joins.root = scope.root := by
  obtain ⟨d', hwrites, -, hjoins⟩ := h.exists_writes
  exact hjoins ▸ hwrites.joins_root

theorem draft_spelled (h : Compiles s root e o scope d steps q) : d.Spelled scope where
  root_eq := h.joins_root
  root := h.isIdentifier_root
  selected := h.isIdentifier_selected
  tests := by
    obtain ⟨d', hwrites, -, -⟩ := h.exists_writes
    exact hwrites.spelled h.isIdentifier_root

/-- The names in a compiled statement are identifiers, and its fragments are legible. -/
theorem spelled (h : Compiles s root e o scope d steps q) : q.Spelled := by
  obtain ⟨limit, rows, -, hassembles⟩ := h.assembled
  exact hassembles.spelled h.draft_spelled

/-- The text of a compiled statement is read back as the tokens that it was written from. -/
theorem lex?_text (h : Compiles s root e o scope d steps q) :
    Sql.lex? q.text = some (q.tokens.flatMap Token.lexemes) :=
  Sql.lex?_render h.spelled.legible

end Compiles

end EntityQuery
