import EntityQuery.Proofs.Drafting
import EntityQuery.Proofs.KeyGroups
import EntityQuery.Proofs.Sql.Reading
import EntityQuery.Proofs.Text.Trimming

/-!
# What a visit writes

Everything that a successful visit of an expression does, by the nodes of the expression
(`Writes`): which values it binds, and which condition it arrives at. A node that tests the rows
writes its predicates with the next free numbers in place of their values. The words that it finds
in a term and the groups that it puts keys into are those of the predicates (`searchText?_eq`,
`requested_eq`).
-/

namespace EntityQuery

open Sql (Condition Test)

/-! ## §1 Words and keys -/

/-- A visit finds the words of a term by going through it once. -/
theorem words_toList (term : String) : Text.words term.toList = termWords term :=
  Text.words_eq_filter_splitOnP _

theorem Drafting.searchText?_eq (term : String) : searchText? term = joinedWords? term := by
  unfold searchText? joinedWords?
  rw [words_toList]
  cases termWords term with
  | nil => rfl
  | cons word words =>
    rw [if_neg (List.cons_ne_nil _ _)]
    refine congrArg some (String.toList_injective ?_)
    simp [String.toList_intercalate, Function.comp_def]

theorem Drafting.searchText?_eq_some {term : String} (h : termWords term ≠ []) :
    searchText? term = some (String.ofList ([' ', '&', ' '].intercalate (termWords term))) := by
  rw [searchText?_eq, joinedWords?, if_neg h]

/-- The keys of a visit are grouped as they are requested. -/
theorem Scope.requested_eq (scope : Scope) (tokens : List String) :
    scope.requested tokens = Drafting.keyGroups (tokens.filterMap scope.column?) :=
  (Drafting.keyGroups_eq _).symm

namespace Drafting

/-! ## §2 Nodes that test the rows -/

/-- Tests are written for some predicates: the next free numbers stand in place of the values, and
the values are bound. -/
structure Numbers (d : Draft) (ps : List Predicate) (ts : List (Test Nat)) (d' : Draft) : Prop where
  tests : ts = Test.numberAll d.params.next ps
  draft : d' = d.withValues (ps.flatMap Test.values)

namespace Numbers

theorem nil (d : Draft) : Numbers d [] [] d :=
  ⟨rfl, by simp⟩

theorem single (d : Draft) (p : Predicate) :
    Numbers d [p] [p.number d.params.next] (d.withValues p.values) :=
  ⟨rfl, by simp⟩

theorem append {d d₁ d' : Draft} {ps qs : List Predicate} {ts us : List (Test Nat)}
    (hp : Numbers d ps ts d₁) (hq : Numbers d₁ qs us d') : Numbers d (ps ++ qs) (ts ++ us) d' := by
  obtain ⟨rfl, rfl⟩ := hp
  obtain ⟨rfl, rfl⟩ := hq
  exact ⟨by simp [Test.numberAll_append], by simp⟩

end Numbers

/-- A condition that says that some predicates hold, of which there must be one. -/
def WrittenFor (d : Draft) (ps : List Predicate) (c : Condition) (d' : Draft) : Prop :=
  ∃ t ts, c = .allOf (.test t) (ts.map .test) ∧ Numbers d ps (t :: ts) d'

theorem writtenFor_single (d : Draft) (p : Predicate) :
    WrittenFor d [p] (.test (p.number d.params.next)) (d.withValues p.values) :=
  ⟨_, [], rfl, .single d p⟩

theorem writtenFor_compare {column : Column} {operator : ComparisonOperator} {value : String}
    {d d' : Draft} {c : Condition} (h : Steps (compare column operator value) d c d') :
    ∃ t, c = .test t ∧
      Numbers d [.compare column.access (column.castFor operator) operator value] [t] d' := by
  simp only [compare, steps_bind, steps_bindValue, steps_pure] at h
  obtain ⟨_, _, ⟨rfl, rfl⟩, rfl, rfl⟩ := h
  exact ⟨_, rfl, .single ..⟩

theorem writtenFor_within {column : Column} {range : Range} {d d' : Draft} {c : Condition}
    (h : Steps (within column range) d c d') :
    WrittenFor d (range.bounds.map fun (operator, value) =>
      .compare column.access (column.castFor operator) operator value) c d' := by
  cases range with
  | above lower | below upper =>
    obtain ⟨t, rfl, hnumbers⟩ := writtenFor_compare h
    exact ⟨t, [], rfl, hnumbers⟩
  | between lower upper =>
    simp only [within, steps_bind, steps_pure] at h
    obtain ⟨_, _, h₁, _, _, h₂, rfl, rfl⟩ := h
    obtain ⟨t, rfl, ht⟩ := writtenFor_compare h₁
    obtain ⟨u, rfl, hu⟩ := writtenFor_compare h₂
    exact ⟨t, [u], rfl, ht.append hu⟩

theorem writtenFor_search {scope : Scope} {column : Option String} {term : String}
    {d d' : Draft} {c : Condition} (h : Steps (search scope column term) d c d') :
    ∃ joins, d.joins.Requires scope.schema joins ∧
      WrittenFor (d.withJoins joins) (scope.predicates (.search column term)) c d' := by
  unfold search at h
  rw [searchText?_eq] at h
  cases htext : joinedWords? term with
  | none => simp [htext] at h
  | some text =>
    rw [htext] at h
    cases column with
    | none =>
      simp only [steps_bind, steps_bindValue, steps_pure] at h
      obtain ⟨_, _, ⟨rfl, rfl⟩, rfl, rfl⟩ := h
      simp only [Scope.predicates, htext, Option.toList_some, List.map_cons, List.map_nil]
      exact ⟨d.joins, .refl _, writtenFor_single d _⟩
    | some token =>
      simp only [steps_bind] at h
      obtain ⟨c', d₁, hresolve, h⟩ := h
      obtain ⟨hcolumn, joins, hjoins, rfl⟩ := hresolve.of_resolve
      split at h
      · -- metadata of expeditions is rejected
        simp at h
      · simp only [steps_bind, steps_bindValue, steps_pure] at h
        obtain ⟨_, _, ⟨rfl, rfl⟩, _, _, ⟨rfl, rfl⟩, rfl, rfl⟩ := h
        simp only [Scope.predicates, htext, hcolumn, Option.toList_some, List.flatMap_cons,
          List.flatMap_nil, List.append_nil]
        exact ⟨joins, hjoins, _, [_], rfl, (Numbers.single _ _).append (.single _ _)⟩

theorem numbers_hasKeys {g : KeyGroup} {d d' : Draft} {c : Condition}
    (h : Steps (hasKeys g) d c d') :
    ∃ t, c = .test t ∧ Numbers d [.hasAll g.table g.jsonColumn g.keys] [t] d' := by
  unfold hasKeys at h
  split at h
  · rename_i key hkeys
    simp only [steps_bind, steps_bindValue, steps_pure] at h
    obtain ⟨_, _, ⟨rfl, rfl⟩, rfl, rfl⟩ := h
    rw [hkeys]
    exact ⟨_, rfl, .single ..⟩
  · rename_i keys hkeys
    simp only [steps_bind, steps_bindAll, steps_pure] at h
    obtain ⟨_, _, ⟨rfl, rfl⟩, rfl, rfl⟩ := h
    -- not one key, so that the test is written for a list of keys
    have hall : (Test.hasAll g.table g.jsonColumn g.keys : Predicate) =
        .hasKeys g.table g.jsonColumn g.keys := by
      unfold Test.hasAll
      split
      · exact absurd ‹_› (hkeys _)
      · rfl
    rw [hall]
    exact ⟨_, rfl, .single ..⟩

theorem numbers_mapM_hasKeys {groups : List KeyGroup} {d d' : Draft} {cs : List Condition}
    (h : Steps (groups.mapM hasKeys) d cs d') :
    ∃ ts, cs = ts.map .test ∧
      Numbers d (groups.map fun g => .hasAll g.table g.jsonColumn g.keys) ts d' := by
  induction groups generalizing d cs with
  | nil =>
    simp only [List.mapM_nil, steps_pure] at h
    obtain ⟨rfl, rfl⟩ := h
    exact ⟨[], rfl, .nil _⟩
  | cons g groups ih =>
    simp only [List.mapM_cons, steps_bind, steps_pure] at h
    obtain ⟨_, _, hg, _, _, hgroups, rfl, rfl⟩ := h
    obtain ⟨t, rfl, ht⟩ := numbers_hasKeys hg
    obtain ⟨ts, rfl, hts⟩ := ih hgroups
    exact ⟨t :: ts, rfl, ht.append hts⟩

theorem writtenFor_present {scope : Scope} {tokens : List String} {d d' : Draft} {c : Condition}
    (h : Steps (present scope tokens) d c d') :
    ∃ joins, d.joins.Requires scope.schema joins ∧
      WrittenFor (d.withJoins joins) (scope.predicates (.present tokens)) c d' := by
  unfold present at h
  split at h
  · simp at h
  · simp only [steps_bind] at h
    obtain ⟨columns, d₁, hresolve, cs, d₂, hkeys, h⟩ := h
    obtain ⟨rfl, joins, hjoins, rfl⟩ := hresolve.of_mapM_resolve
    obtain ⟨ts, rfl, hnumbers⟩ := numbers_mapM_hasKeys hkeys
    refine ⟨joins, hjoins, ?_⟩
    simp only [Scope.predicates, Scope.requested_eq]
    generalize keyGroups _ = groups at hnumbers
    cases groups with
    | nil =>
      -- identifiers always have a value
      obtain ⟨rfl, rfl⟩ := hnumbers
      simp only [List.map_nil, Test.numberAll, steps_pure] at h
      obtain ⟨rfl, rfl⟩ := h
      exact writtenFor_single _ .always
    | cons g groups =>
      obtain ⟨t, ts, rfl⟩ : ∃ t ts', ts = t :: ts' := ⟨_, _, hnumbers.tests⟩
      simp only [List.map_cons, steps_pure] at h
      obtain ⟨rfl, rfl⟩ := h
      exact ⟨t, ts, rfl, hnumbers⟩

theorem writtenFor_isAmong (s : Schema) {column : Sql.ExpeditionColumn} {values : List String}
    {d d' : Draft} {c : Condition} (h : Steps (isAmong column values) d c d') :
    ∃ joins, d.joins.Requires s joins ∧
      WrittenFor (d.withJoins joins) [.isAmong column values] c d' := by
  simp only [isAmong, requireExpeditions, steps_bind, steps_modify, steps_bindAll] at h
  obtain ⟨_, _, rfl, numbers, _, ⟨rfl, rfl⟩, h⟩ := h
  have hc : c = .test ((Test.isAmong column values : Predicate).number d.params.next) ∧
      d' = (d.withJoins d.joins.requireExpeditions).withValues values := by
    -- one value has a test of its own, and each number of values is taken by itself
    rcases values with _ | ⟨value, _ | ⟨second, others⟩⟩
    all_goals
      obtain ⟨rfl, rfl⟩ := steps_pure.mp h
      exact ⟨rfl, rfl⟩
  obtain ⟨rfl, rfl⟩ := hc
  have hwritten :=
    writtenFor_single (d.withJoins d.joins.requireExpeditions) (.isAmong column values)
  rw [Test.values_isAmong] at hwritten
  exact ⟨_, .expeditions (.refl _), hwritten⟩

/-- A node that tests the rows is written for its predicates. -/
theorem writtenFor_test {scope : Scope} {e : Expression} {d d' : Draft} {r : Option Condition}
    (he : e.isTest) (h : Steps (condition scope e) d r d') :
    ∃ c joins, r = some c ∧ d.joins.Requires scope.schema joins ∧
      WrittenFor (d.withJoins joins) (scope.predicates e) c d' := by
  -- a column is resolved first, then its values are bound
  cases e with
  | comparison token operator term =>
    simp only [condition, steps_bind, steps_pure] at h
    obtain ⟨column, _, hresolve, c, _, hcompare, rfl, rfl⟩ := h
    obtain ⟨hcolumn, joins, hjoins, rfl⟩ := hresolve.of_resolve
    obtain ⟨t, rfl, hnumbers⟩ := writtenFor_compare hcompare
    exact ⟨_, joins, rfl, hjoins, t, [], rfl, by simpa [Scope.predicates, hcolumn] using hnumbers⟩
  | range token spec =>
    simp only [condition, steps_bind] at h
    obtain ⟨column, _, hresolve, h⟩ := h
    obtain ⟨hcolumn, joins, hjoins, rfl⟩ := hresolve.of_resolve
    split at h
    · rename_i range hrange
      simp only [steps_bind, steps_pure] at h
      obtain ⟨c, _, hwithin, rfl, rfl⟩ := h
      exact ⟨c, joins, rfl, hjoins, by
        simpa [Scope.predicates, hcolumn, hrange] using writtenFor_within hwithin⟩
    · exact absurd h not_steps_reject
  | like token term =>
    simp only [condition, steps_bind, steps_bindValue, steps_pure] at h
    obtain ⟨column, _, hresolve, _, _, ⟨rfl, rfl⟩, rfl, rfl⟩ := h
    obtain ⟨hcolumn, joins, hjoins, rfl⟩ := hresolve.of_resolve
    have hpredicates : scope.predicates (.like token term) = [.like column.access term] := by
      simp [Scope.predicates, hcolumn]
    rw [hpredicates]
    exact ⟨_, joins, rfl, hjoins, writtenFor_single (d.withJoins joins) _⟩
  | search column term =>
    simp only [condition, steps_bind, steps_pure] at h
    obtain ⟨c, _, hsearch, rfl, rfl⟩ := h
    obtain ⟨joins, hjoins, hwritten⟩ := writtenFor_search hsearch
    exact ⟨c, joins, rfl, hjoins, hwritten⟩
  | present tokens =>
    simp only [condition, steps_bind, steps_pure] at h
    obtain ⟨c, _, hpresent, rfl, rfl⟩ := h
    obtain ⟨joins, hjoins, hwritten⟩ := writtenFor_present hpresent
    exact ⟨c, joins, rfl, hjoins, hwritten⟩
  | expedition codes | project ids =>
    simp only [condition] at h
    split at h
    · simp at h
    · simp only [steps_bind, steps_pure] at h
      obtain ⟨c, _, hamong, rfl, rfl⟩ := h
      obtain ⟨joins, hjoins, hwritten⟩ := writtenFor_isAmong scope.schema hamong
      exact ⟨c, joins, rfl, hjoins, hwritten⟩
  | not | logical | group | select | selectWith | all | empty => simp [Expression.isTest] at he

end Drafting

/-! ## §3 All nodes -/

open Drafting in
/-- A successful visit of an expression on a draft, with the condition that it arrives at and the
draft that it leaves. -/
inductive Writes (scope : Scope) :
    Draft → Expression → Option Condition → Draft → Prop
  | test {d d' e c joins} (he : e.isTest) (hjoins : d.joins.Requires scope.schema joins)
      (h : WrittenFor (d.withJoins joins) (scope.predicates e) c d') : Writes scope d e (some c) d'
  | not {d d' inner c} (h : Writes scope d inner (some c) d') :
      Writes scope d (.not inner) (some (.not c)) d'
  | logical {d d₁ d' left right first second} (connective : Connective)
      (hl : Writes scope d left first d₁) (hr : Writes scope d₁ right second d') :
      Writes scope d (.logical connective left right) (combine connective first second) d'
  | group {d d' inner r} (h : Writes scope d inner r d') :
      Writes scope d (.group inner) (r.map .group) d'
  | select {d entities} (hentities : scope.schema.Declares entities) :
      Writes scope d (.select entities) none (d.withJoins (entities.foldl .select d.joins))
  | selectWith {d d' entities inner r} (hentities : scope.schema.Declares entities)
      (h : Writes scope (d.withJoins (entities.foldl .select d.joins)) inner r d') :
      Writes scope d (.selectWith entities inner) r d'
  | all {d} : Writes scope d .all none { d with all := true }

/-- Every successful visit goes by the rules. -/
theorem Drafting.Steps.writes {scope : Scope} {e : Expression} {d d' : Draft}
    {r : Option Condition} (h : Steps (condition scope e) d r d') : Writes scope d e r d' := by
  -- on the expression; the draft that one side leaves is where the other one begins
  induction e generalizing d d' r with
  | comparison | range | like | search | present | expedition | project =>
    obtain ⟨c, joins, rfl, hjoins, hwritten⟩ := writtenFor_test rfl h
    exact .test rfl hjoins hwritten
  | not inner ih =>
    simp only [condition, steps_bind] at h
    obtain ⟨r', _, hinner, h⟩ := h
    cases r' with
    | none => exact absurd h not_steps_reject
    | some c =>
      simp only [steps_pure] at h
      obtain ⟨rfl, rfl⟩ := h
      exact .not (ih hinner)
  | logical connective left right ihl ihr =>
    simp only [condition, steps_bind, steps_pure] at h
    obtain ⟨first, _, hl, second, _, hr, rfl, rfl⟩ := h
    exact .logical connective (ihl hl) (ihr hr)
  | group inner ih =>
    simp only [condition, steps_bind, steps_pure] at h
    obtain ⟨r', _, hinner, rfl, rfl⟩ := h
    exact .group (ih hinner)
  | select entities =>
    simp only [condition, steps_bind, steps_pure] at h
    obtain ⟨_, _, hselect, rfl, rfl⟩ := h
    obtain ⟨hentities, rfl⟩ := hselect.of_selectEntities
    exact .select hentities
  | selectWith entities inner ih =>
    simp only [condition, steps_bind] at h
    obtain ⟨_, _, hselect, hinner⟩ := h
    obtain ⟨hentities, rfl⟩ := hselect.of_selectEntities
    exact .selectWith hentities (ih hinner)
  | all =>
    simp only [condition, requireAll, steps_bind, steps_modify, steps_pure] at h
    obtain ⟨_, _, rfl, rfl, rfl⟩ := h
    exact .all
  | empty => exact absurd h not_steps_reject

/-! ## §4 Values and tests -/

/-- Where the column and the specification of a node can be read, its literals are the values of
its predicates. -/
theorem Scope.flatMap_values_predicates {scope : Scope} {e : Expression}
    (h : scope.predicates e ≠ []) :
    (scope.predicates e).flatMap Test.values = scope.literals e := by
  cases e with
  | comparison token operator term | like token term =>
    cases hc : scope.column? token <;> simp_all [predicates, literals, Test.values]
  | range token spec =>
    cases hc : scope.column? token <;>
      simp_all [predicates, literals, List.flatMap_assoc, List.map_eq_flatMap, Test.values]
  | search column term =>
    cases column with
    | none => cases ht : joinedWords? term <;> simp_all [predicates, literals, Test.values]
    | some token =>
      cases hc : scope.column? token <;>
        simp_all [predicates, literals, List.flatMap_assoc, Test.values]
  | present tokens =>
    simp only [predicates, literals]
    cases scope.requested tokens with
    | nil => rfl
    | cons g groups => simp [List.flatMap_map]
  | expedition | project => simp [predicates, literals]
  | not | logical | group | select | selectWith | all | empty => exact absurd rfl h

theorem Drafting.WrittenFor.flatMap_values {scope : Scope} {d d' : Draft} {e : Expression}
    {c : Condition} (he : e.isTest) (h : WrittenFor d (scope.predicates e) c d') :
    (scope.predicates e).flatMap Test.values = e.literals scope := by
  obtain ⟨t, ts, -, hnumbers⟩ := h
  have hne : scope.predicates e ≠ [] := by
    intro hnil
    simpa [hnil, Test.numberAll] using hnumbers.tests
  simp [Expression.literals, Expression.nodes_of_isTest he, Scope.flatMap_values_predicates hne]

/-- The tests of a condition, if there is one. -/
def Sql.Condition.tests (r : Option Condition) : List (Test Nat) :=
  r.elim [] (·.formula.atoms)

theorem Sql.Condition.mem_tests {r : Option Condition} {t : Test Nat} :
    t ∈ tests r ↔ ∃ c ∈ r, t ∈ c.formula.atoms := by
  cases r <;> simp [tests]

theorem Sql.Condition.tests_combine (connective : Connective) (first second : Option Condition) :
    tests (Drafting.combine connective first second) = tests first ++ tests second := by
  cases connective <;> cases first <;> cases second <;>
    simp [tests, Drafting.combine, Drafting.connect, formula, Formula.atoms]

namespace Writes

variable {scope : Scope} {d d' : Draft} {e : Expression} {r : Option Condition}

/-- A visit binds the literals of the expression from left to right. -/
theorem values_params (h : Writes scope d e r d') :
    d'.params.values = d.params.values ++ e.literals scope := by
  induction h with
  | test he _ h =>
    -- a test binds its values and touches nothing else
    have hvalues := h.flatMap_values he
    obtain ⟨_, _, -, -, rfl⟩ := h
    rw [Draft.values_withValues, hvalues]
    rfl
  | not _ ih | group _ ih => simpa using ih
  | logical connective _ _ ihl ihr => simp [ihr, ihl]
  | select _ => simp [Draft.withJoins]
  | selectWith _ _ ih => simpa [Draft.withJoins] using ih
  | all => simp

/-- A visit leaves alone what earlier visits have arrived at. -/
theorem condition_eq (h : Writes scope d e r d') : d'.condition = d.condition := by
  induction h with
  | test he _ h =>
    obtain ⟨_, _, -, -, rfl⟩ := h
    rfl
  | not _ ih | group _ ih | selectWith _ _ ih => exact ih
  | logical _ _ _ ihl ihr => exact ihr.trans ihl
  | select | all => rfl

/-- The tests of a condition use the numbers of the literals one after the other. -/
theorem flatMap_values_tests (h : Writes scope d e r d') :
    (Condition.tests r).flatMap Test.values =
      List.range' d.params.next (e.literals scope).length := by
  induction h with
  | test he _ h =>
    have hvalues := h.flatMap_values he
    obtain ⟨t, ts, rfl, htests, rfl⟩ := h
    have hatoms : Condition.tests (some (.allOf (.test t) (ts.map .test))) = t :: ts := by
      simp [Condition.tests, Condition.formula_allOf, Formula.atoms_foldl_and, Condition.formula,
        Formula.atoms, List.flatMap_map]
    rw [hatoms, htests, Test.flatMap_values_numberAll, hvalues]
    rfl
  | not _ ih => simpa [Condition.tests, Condition.formula, Formula.atoms] using ih
  | logical connective hl _ ihl ihr =>
    -- the right side goes on counting where the left side has stopped
    have hnext := congrArg List.length hl.values_params
    simp only [Condition.tests_combine, List.flatMap_append, ihl, ihr, Expression.literals_logical,
      List.length_append, ← List.range'_append_1] at hnext ⊢
    simp [Sql.Params.next, Sql.Params.size, hnext, Nat.add_right_comm]
  | @group _ _ _ r _ ih =>
    cases r <;> simpa [Condition.tests, Condition.formula] using ih
  | select | all => rfl
  | selectWith _ _ ih => simpa using ih

end Writes

end EntityQuery
