import EntityQuery.Proofs.Coverage
import EntityQuery.Proofs.Joins.Names

/-!
# Compiled statements are closed

The tables that a statement reads and those that it joins come from different places. They agree:
the tests of a statement read tables that have been asked for, the plan of a request introduces all
that was asked for, and each join of the plan reads its own table and tables that were there before
it. So a compiled statement reads only tables that it introduces (`Compiles.closed`).
-/

namespace EntityQuery

open Sql (Condition JoinsClosed Test tables)

/-! ## §1 Plans introduce what is covered -/

/-- The tables that a step reads in order to join its own. -/
def JoinStep.reads : JoinStep → List String
  | entity hop => [hop.child, hop.parent, hop.child, hop.parent]
  | identifiers owner => [identifiersName owner, owner, identifiersName owner]
  | expeditions root => [expeditionsTable, root]

theorem JoinStep.tables_on_toJoin (network : Nat) (step : JoinStep) :
    tables (step.toJoin network).on = step.reads := by
  cases step <;> rfl

namespace JoinRequest

section Plan

variable {s : Schema} {r : JoinRequest} {hops : List Hop} {steps : List JoinStep} (network : Nat)

theorem closed_entities {joined : List String} (h : Connected s joined hops) :
    JoinsClosed joined ((hops.map JoinStep.entity).map (JoinStep.toJoin network)) := by
  induction hops generalizing joined with
  | nil => trivial
  | cons hop hops ih =>
    refine ⟨?_, ih h.2⟩
    rw [JoinStep.tables_on_toJoin]
    show [hop.child, hop.parent, hop.child, hop.parent] ⊆ hop.table :: joined
    -- one of the two is the table that is joined, and the other was there before
    obtain ⟨-, ⟨htable, hmem⟩ | ⟨htable, hmem⟩⟩ := h.1 <;> simp [htable, hmem]

theorem closed_identifiers {present owners : List String} (h : owners ⊆ present) :
    JoinsClosed present ((owners.map JoinStep.identifiers).map (JoinStep.toJoin network)) := by
  induction owners generalizing present with
  | nil => trivial
  | cons owner owners ih =>
    obtain ⟨howner, howners⟩ := List.cons_subset.mp h
    refine ⟨?_, ih (List.subset_cons_of_subset _ howners)⟩
    rw [JoinStep.tables_on_toJoin]
    show [identifiersName owner, owner, identifiersName owner] ⊆ identifiersName owner :: present
    simp [howner]

theorem IsPlan.mem_hopTables (h : IsPlan s r hops steps) (hsound : Sound s r) {name : String}
    (hname : name ∈ r.required) : name ∈ hopTables hops := by
  obtain ⟨root, hroot, hrootName⟩ := hsound.root _ List.mem_cons_self
  obtain ⟨e, he, rfl⟩ := hsound.required _ hname
  have htree := h.sameTree _ hname
  rw [← hrootName] at htree
  refine (h.tables _).mpr ⟨?_, _, hname, hrootName ▸ htree.onPath_right hroot he⟩
  exact fun heq => hsound.apart (heq ▸ hname)

/-- The owners of the joined identifiers are joined before them. -/
theorem IsPlan.owners_subset (h : IsPlan s r hops steps) (hsound : Sound s r) :
    r.root :: r.selection s ⊆ r.root :: hopTables hops := by
  apply List.cons_subset_cons
  intro name hname
  exact h.mem_hopTables hsound (hsound.selected (s.mem_inOrder_iff.mp hname))

/-- What a request covers is introduced by its plan. -/
theorem IsPlan.mem_references (h : IsPlan s r hops steps) (hsound : Sound s r) {table : String}
    (htable : r.Covers table) : table ∈ r.root :: steps.map JoinStep.reference := by
  rw [h.map_reference]
  rcases htable with rfl | htable | ⟨rfl, hexpeditions⟩
  · exact List.mem_cons_self
  · simp [h.mem_hopTables hsound htable]
  · simp [hexpeditions]

/-- So are the table and the identifiers of each entity that is shown. -/
theorem IsPlan.owner_subset_references (h : IsPlan s r hops steps) (hsound : Sound s r)
    {owner : String} (howner : owner ∈ r.root :: r.selection s) :
    [owner, identifiersName owner] ⊆ r.root :: steps.map JoinStep.reference := by
  have hmem := h.owners_subset hsound howner
  have hidentifiers := List.mem_map_of_mem howner (f := identifiersName)
  rw [h.map_reference]
  intro name hname
  rcases List.mem_pair.mp hname with rfl | rfl
  · rw [← List.cons_append, ← List.cons_append, List.append_assoc]
    exact List.mem_append_left _ hmem
  · exact List.mem_cons_of_mem _ (List.mem_append_left _ (List.mem_append_right _ hidentifiers))

theorem IsPlan.closed (h : IsPlan s r hops steps) (hsound : Sound s r) :
    JoinsClosed [r.root] (steps.map (JoinStep.toJoin network)) := by
  rw [h.steps, List.map_append, List.map_append]
  -- entities along their links, then identifiers of entities that are there, then expeditions
  refine ((closed_entities network h.connected).append ?_).append ?_
  · apply closed_identifiers
    intro name hname
    have hmem := h.owners_subset hsound hname
    simpa [hopTables, JoinStep.reference, or_comm] using hmem
  · split
    · refine ⟨?_, trivial⟩
      rw [JoinStep.tables_on_toJoin]
      simp [JoinStep.reads, JoinStep.reference]
    · trivial

end Plan

end JoinRequest

/-! ## §2 Compiled statements -/

theorem tables_shown (root : String) (owners : List String) :
    tables (Sql.joinedByComma ((entityItems root ++ expeditionItems ++
      owners.flatMap entityItems).map Sql.SelectItem.tokens)) =
      [root, identifiersName root, expeditionsTable, expeditionsTable] ++
        owners.flatMap fun owner => [owner, identifiersName owner] := by
  simp only [Sql.tables_joinedByComma, List.flatMap_map, Sql.SelectItem.tables_tokens,
    List.flatMap_append, List.flatMap_assoc]
  rfl

/-- The restriction to public expeditions reads the table of expeditions. -/
theorem Draft.tables_filter_subset (d : Draft) (publicOnly : Bool) :
    tables ((d.filter publicOnly).elim [] Condition.tokens) ⊆
      (Condition.tests d.condition).filterMap Test.table? ++ [expeditionsTable] := by
  unfold filter
  split
  · cases d.condition <;>
      simp [narrowToPublic, Condition.tables_tokens, Condition.tests, Condition.formula,
        Formula.atoms, Test.table?]
  · cases d.condition <;> simp [Condition.tables_tokens, Condition.tests]

namespace Compiles

variable {s : Schema} {root : String} {e : Expression} {o : CompileOptions} {scope : Scope}
  {d : Draft} {steps : List JoinStep} {q : Sql.Query}

theorem sound (h : Compiles s root e o scope d steps q) :
    JoinRequest.Sound s d.finalJoins := by
  obtain ⟨d', hwrites, -, hjoins⟩ := h.exists_writes
  have hsound := (JoinRequest.kept_sound _).writes hwrites (.start (h.schema_eq ▸ h.declares_root))
  rw [hjoins, h.schema_eq] at hsound
  exact hsound.requireExpeditions

theorem finalJoins_root (h : Compiles s root e o scope d steps q) :
    d.finalJoins.root = scope.root := by
  obtain ⟨d', hwrites, -, hjoins⟩ := h.exists_writes
  have hroot := hwrites.joins_root
  rw [hjoins] at hroot
  exact hroot

/-- The hops of a plan start at the root of the query. -/
theorem finalJoins_root_eq (h : Compiles s root e o scope d steps q) : d.finalJoins.root = root :=
  h.finalJoins_root.trans h.root_eq

theorem exists_isPlan (h : Compiles s root e o scope d steps q) :
    ∃ hops, JoinRequest.IsPlan s d.finalJoins hops steps := by
  obtain ⟨_, _, -, hassembles⟩ := h.assembled
  have hplan := h.sound.plan_spec
  rwa [← h.schema_eq, hassembles.plan, h.schema_eq] at hplan

/-- The tables that the tests of the draft read have been asked for. -/
theorem covers_tests (h : Compiles s root e o scope d steps q) {table : String}
    (htable : table ∈ (Condition.tests d.condition).filterMap Test.table?) :
    d.finalJoins.Covers table := by
  obtain ⟨r, d₁, hsteps, rfl⟩ := Draft.visit_eq_ok.mp h.visited
  have hwrites := hsteps.writes
  have hcondition : Drafting.combine .and d₁.condition r = r := by
    rw [hwrites.condition_eq]
    rfl
  obtain ⟨t, ht, hread⟩ := List.mem_filterMap.mp htable
  -- the tests are the predicates of the expression, and these are covered
  have hmem : t.map d₁.params.valueOf ∈ e.nodes.flatMap scope.predicates := by
    rw [← hwrites.map_tests]
    rw [hcondition] at ht
    exact List.mem_map_of_mem ht
  have hcovers := hsteps.covers rfl _ hmem table (by rwa [Test.table?_map])
  exact hcovers.requireExpeditions

theorem start_eq (h : Compiles s root e o scope d steps q) : q.start = [scope.root] := by
  rw [Sql.Query.start, h.source_eq, ← h.root_eq]
  rfl

theorem introduced_eq (h : Compiles s root e o scope d steps q) :
    q.introduced = d.finalJoins.root :: steps.map JoinStep.reference := by
  rw [Sql.Query.introduced, h.start_eq, h.joins_eq, h.finalJoins_root]
  simp

/-- So have all tables that the WHERE clause reads. -/
theorem covers_filter (h : Compiles s root e o scope d steps q) {table : String}
    (htable : table ∈ tables q.filter) : d.finalJoins.Covers table := by
  rw [h.filter_eq] at htable
  rcases List.mem_append.mp (d.tables_filter_subset _ htable) with htable | htable
  · exact h.covers_tests htable
  · obtain rfl := List.mem_singleton.mp htable
    exact d.joins.covers_requireExpeditions

/-- A compiled statement reads only tables that it introduces. -/
theorem closed (h : Compiles s root e o scope d steps q) : q.Closed := by
  obtain ⟨hops, hplan⟩ := h.exists_isPlan
  have hcovered : ∀ table, d.finalJoins.Covers table → table ∈ q.introduced := by
    intro table htable
    rw [h.introduced_eq]
    exact hplan.mem_references h.sound htable
  have howner : ∀ owner ∈ scope.root :: d.finalJoins.selection s,
      [owner, identifiersName owner] ⊆ q.introduced := by
    intro owner hmem
    rw [h.introduced_eq]
    exact hplan.owner_subset_references h.sound (h.finalJoins_root ▸ hmem)
  have hroot := howner scope.root List.mem_cons_self
  have hexpeditions := hcovered _ d.joins.covers_requireExpeditions
  refine ⟨?select, ?joins, ?filter, ?orderBy⟩
  case select =>
    rw [h.select_eq, tables_shown, h.schema_eq]
    refine List.append_subset.mpr ⟨?_, ?_⟩
    · simpa [hexpeditions] using hroot
    · intro table htable
      obtain ⟨owner, hmem, htable⟩ := List.mem_flatMap.mp htable
      exact howner owner (List.mem_cons_of_mem _ hmem) htable
  case joins =>
    have hclosed := hplan.closed o.network h.sound
    rw [h.finalJoins_root] at hclosed
    rw [h.start_eq, h.joins_eq]
    exact hclosed
  case filter => exact fun table htable => hcovered table (h.covers_filter htable)
  case orderBy =>
    rw [h.orderBy_eq]
    show [scope.root, scope.root] ⊆ q.introduced
    simpa using hroot List.mem_cons_self

end Compiles

/-- Whatever a query asks for, the statement that it compiles to reads only tables that it
introduces: what it selects, filters and orders by is read from the table that it starts from or
from one that is joined, and each join reads its own table and those that come before it. -/
theorem Schema.compile_closed {s : Schema} {root : String} {e : Expression} {o : CompileOptions}
    {p : Sql.Prepared} (h : s.compile root e o = .ok p) :
    ∃ scope d steps q, Compiles s root e o scope d steps q ∧ p = ⟨q.text, d.params⟩ ∧ q.Closed := by
  obtain ⟨scope, d, steps, q, hcompiles, hp⟩ := exists_compiles h
  exact ⟨scope, d, steps, q, hcompiles, hp, hcompiles.closed⟩

/-- A query on samples that reads their events and shows them. -/
theorem Schema.compile_closed_fieldwork :
    ∃ p, ∃ q : Sql.Query, Schema.fieldwork.compile "Sample" (.selectWith ["Event"] .fieldwork)
        { publicOnly := true } = .ok p ∧ p.text = q.text ∧ q.Closed ∧
      q.introduced = ["Sample", "Event", "Sample_entity_identifiers", "Event_entity_identifiers",
        "expeditions"] ∧
      tables q.filter = ["Event", "Sample", "Sample", "expeditions"] := by
  have hcompile : Schema.fieldwork.compile "Sample" (.selectWith ["Event"] .fieldwork)
      { publicOnly := true } = .ok _ := rfl
  obtain ⟨scope, d, steps, q, hcompiles, hp, hclosed⟩ := compile_closed hcompile
  obtain ⟨limit, rows, -, hassembles⟩ := hcompiles.assembled
  -- the parts of the statement are computed one after the other
  obtain rfl : { Scope.fieldwork with root := "Sample" } = scope := Except.ok.inj hcompiles.inScope
  obtain rfl := (Prod.mk.inj hcompiles.visited).2
  obtain rfl := Except.ok.inj hassembles.plan
  have hquery := hassembles.query
  refine ⟨_, q, hcompile, congrArg Sql.Prepared.text hp, hclosed, ?_, ?_⟩
  · rw [hquery]
    rfl
  · rw [hquery]
    rfl

end EntityQuery
