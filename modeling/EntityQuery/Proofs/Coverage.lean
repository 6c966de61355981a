import EntityQuery.Proofs.Joins.Requests
import EntityQuery.Proofs.Sql.Tables
import EntityQuery.Proofs.StatementText

/-!
# What visits ask for

Tests name the tables of their columns, and a visit asks for these tables on the side. Each step of
a visit that finds a column asks for its table, and nothing is taken back later. So when a visit has
succeeded, all tables that its tests read have been asked for (`Steps.covers`).
-/

namespace EntityQuery

open Sql (Condition Test)

/-! ## §1 What visits keep of a request -/

/-- A property of requests that is kept when entities of a schema or the expeditions are asked
for. -/
structure JoinRequest.Kept (s : Schema) (P : JoinRequest → Prop) : Prop where
  require : ∀ {r : JoinRequest} {e : Entity}, e ∈ s.entities → P r → P (r.require e.name)
  select : ∀ {r : JoinRequest} {e : Entity}, e ∈ s.entities → P r → P (r.select e.name)
  requireExpeditions : ∀ {r : JoinRequest}, P r → P r.requireExpeditions

namespace JoinRequest.Kept

variable {s : Schema} {P : JoinRequest → Prop} {r r' : JoinRequest}

theorem requires (hP : Kept s P) (h : r.Requires s r') (hr : P r) : P r' := by
  induction h with
  | refl => exact hr
  | entity _ he ih => exact hP.require he ih
  | expeditions _ ih => exact hP.requireExpeditions ih

theorem foldl_select (hP : Kept s P) {names : List String} (hnames : s.Declares names) (hr : P r) :
    P (names.foldl JoinRequest.select r) := by
  induction names generalizing r with
  | nil => exact hr
  | cons name names ih =>
    obtain ⟨e, he, rfl⟩ := hnames name List.mem_cons_self
    exact ih (fun other hother => hnames other (List.mem_cons_of_mem _ hother)) (hP.select he hr)

/-- What single steps keep is kept by a whole visit. -/
theorem writes {scope : Scope} {d d' : Draft} {e : Expression} {c : Option Condition}
    (hP : Kept scope.schema P) (h : Writes scope d e c d') (hd : P d.joins) : P d'.joins := by
  -- a selection asks for its entities before what it stands around is visited
  induction h with
  | test _ hjoins h =>
    obtain ⟨_, _, -, -, rfl⟩ := h
    exact hP.requires hjoins hd
  | not _ ih | group _ ih => exact ih hd
  | logical _ _ _ ihl ihr => exact ihr (ihl hd)
  | select hentities => exact hP.foldl_select hentities hd
  | selectWith hentities _ ih => exact ih (hP.foldl_select hentities hd)
  | all => exact hd

end JoinRequest.Kept

/-! ## §2 What a request covers -/

namespace JoinRequest

variable {s : Schema} {r : JoinRequest} {name table : String}

theorem kept_sound (s : Schema) : Kept s (Sound s) where
  require he hr := hr.require (Schema.declares_singleton.mpr ⟨_, he, rfl⟩)
  select he hr := hr.select (Schema.declares_singleton.mpr ⟨_, he, rfl⟩)
  requireExpeditions hr := hr.requireExpeditions

/-- A table that will be there: that of the root, of an entity that was asked for, or of the
expeditions if these were. -/
def Covers (r : JoinRequest) (table : String) : Prop :=
  table = r.root ∨ table ∈ r.required ∨ table = expeditionsTable ∧ r.expeditions

namespace Covers

theorem require (h : r.Covers table) : (r.require name).Covers table := by
  unfold JoinRequest.require
  split
  · exact h
  · exact h.imp_right (Or.imp_left (List.mem_cons_of_mem _))

theorem select (h : r.Covers table) : (r.select name).Covers table := by
  unfold JoinRequest.select
  split
  · exact h
  · exact h.imp_right (Or.imp_left (List.mem_cons_of_mem _))

theorem requireExpeditions (h : r.Covers table) : r.requireExpeditions.Covers table :=
  h.imp_right (Or.imp_right (And.imp_right fun _ => rfl))

end Covers

/-- Nothing that was asked for is taken back. -/
theorem kept_covers (s : Schema) (table : String) : Kept s (·.Covers table) where
  require _ hr := hr.require
  select _ hr := hr.select
  requireExpeditions hr := hr.requireExpeditions

theorem covers_require (r : JoinRequest) (name : String) : (r.require name).Covers name := by
  unfold require
  split
  · exact .inl ‹_›
  · exact .inr (.inl List.mem_cons_self)

theorem covers_requireExpeditions (r : JoinRequest) :
    r.requireExpeditions.Covers expeditionsTable :=
  .inr (.inr ⟨rfl, rfl⟩)

/-- All tables that predicates read will be there. -/
def CoversAll (r : JoinRequest) (ps : List Predicate) : Prop :=
  ∀ p ∈ ps, ∀ table ∈ p.table?, r.Covers table

theorem CoversAll.of_table {ps : List Predicate} (h : r.Covers table)
    (hps : ∀ p ∈ ps, p.table? = some table) : r.CoversAll ps := by
  intro p hp other hother
  obtain rfl : table = other := Option.some.inj ((hps p hp).symm.trans hother)
  exact h

end JoinRequest

/-! ## §3 Visits cover what their tests read -/

namespace Drafting

variable {scope : Scope} {d d' : Draft}

theorem Numbers.joins_eq {ps : List Predicate} {ts : List (Test Nat)} (h : Numbers d ps ts d') :
    d'.joins = d.joins := by
  rw [h.draft]
  rfl

/-- The table of a column is asked for when the column is found. -/
theorem Steps.covers_of_resolve {token : String} {c : Column}
    (h : Steps (resolve scope token) d c d') : d'.joins.Covers c.table := by
  simp only [resolve, steps_bind, steps_pure, steps_except] at h
  obtain ⟨c, _, -, _, _, hsource, rfl, rfl⟩ := h
  unfold Column.table
  cases hc : c.source with
  | entity owner =>
    simp only [hc, requireSource, require, steps_modify] at hsource
    rw [← hsource]
    exact JoinRequest.covers_require _ _
  | expedition =>
    simp only [hc, requireSource, requireExpeditions, steps_modify] at hsource
    rw [← hsource]
    exact JoinRequest.covers_requireExpeditions _

theorem Steps.covers_of_mapM_resolve {tokens : List String} {columns : List Column}
    (h : Steps (tokens.mapM (resolve scope)) d columns d') :
    ∀ c ∈ columns, d'.joins.Covers c.table := by
  induction tokens generalizing d columns with
  | nil =>
    simp only [List.mapM_nil, steps_pure] at h
    obtain ⟨rfl, -⟩ := h
    exact fun c hc => absurd hc List.not_mem_nil
  | cons token tokens ih =>
    simp only [List.mapM_cons, steps_bind, steps_pure] at h
    obtain ⟨first, d₁, hfirst, others, _, hothers, rfl, rfl⟩ := h
    intro c hc
    rcases List.mem_cons.mp hc with rfl | hc
    · -- the columns after it have only asked for more
      obtain ⟨-, joins, hjoins, rfl⟩ := hothers.of_mapM_resolve
      exact (JoinRequest.kept_covers _ _).requires hjoins hfirst.covers_of_resolve
    · exact ih hothers c hc

theorem Steps.covers_of_search {column : Option String} {term : String} {c : Condition}
    (h : Steps (search scope column term) d c d') (hroot : d.joins.root = scope.root) :
    d'.joins.CoversAll (scope.predicates (.search column term)) := by
  unfold search at h
  rw [searchText?_eq] at h
  cases htext : joinedWords? term with
  | none => simp [htext] at h
  | some text =>
    rw [htext] at h
    cases column with
    | none =>
      simp only [steps_bind, steps_bindValue, steps_pure] at h
      obtain ⟨_, _, ⟨rfl, rfl⟩, rfl, rfl⟩ := h
      apply JoinRequest.CoversAll.of_table (.inl hroot.symm)
      simp [Scope.predicates, Test.table?]
    | some token =>
      simp only [steps_bind] at h
      obtain ⟨column, d₁, hresolve, h⟩ := h
      obtain ⟨hcolumn, -⟩ := hresolve.of_resolve
      split at h
      · simp at h
      · simp only [steps_bind, steps_bindValue, steps_pure] at h
        obtain ⟨_, _, ⟨rfl, rfl⟩, _, _, ⟨rfl, rfl⟩, rfl, rfl⟩ := h
        apply JoinRequest.CoversAll.of_table hresolve.covers_of_resolve
        simp [Scope.predicates, hcolumn, htext, Test.table?]

theorem Steps.covers_of_present {tokens : List String} {c : Condition}
    (h : Steps (present scope tokens) d c d') :
    d'.joins.CoversAll (scope.predicates (.present tokens)) := by
  unfold present at h
  split at h
  · simp at h
  · simp only [steps_bind] at h
    obtain ⟨columns, d₁, hresolve, cs, d₂, hkeys, h⟩ := h
    obtain ⟨hcolumns, -⟩ := hresolve.of_mapM_resolve
    obtain ⟨ts, -, hnumbers⟩ := numbers_mapM_hasKeys hkeys
    have hjoins : d'.joins = d₁.joins := by
      rw [← hnumbers.joins_eq]
      split at h <;> rw [(steps_pure.mp h).2]
    rw [hjoins, Scope.predicates, Scope.requested, hcolumns]
    split
    · simp [JoinRequest.CoversAll, Test.table?]
    · intro p hp table htable
      obtain ⟨g, hg, rfl⟩ := List.mem_map.mp hp
      -- a group lies in the table of a column in it
      obtain ⟨column, hmem, heq, -⟩ := exists_column_of_mem_propertiesByPlace hg
      obtain rfl : g.table = table := by simpa using htable
      exact heq ▸ hresolve.covers_of_mapM_resolve column (List.mem_filter.mp hmem).1

theorem Steps.covers_of_isAmong {column : Sql.ExpeditionColumn} {values : List String}
    {c : Condition} (h : Steps (isAmong column values) d c d') :
    d'.joins.CoversAll [.isAmong column values] := by
  simp only [isAmong, requireExpeditions, steps_bind, steps_modify, steps_bindAll] at h
  obtain ⟨_, _, rfl, numbers, _, ⟨rfl, rfl⟩, h⟩ := h
  have hjoins : d'.joins = d.joins.requireExpeditions := by
    split at h <;> rw [← (steps_pure.mp h).2] <;> rfl
  apply JoinRequest.CoversAll.of_table (hjoins ▸ d.joins.covers_requireExpeditions)
  simp

/-- A node that tests the rows asks for the tables that its tests read. -/
theorem Steps.covers_of_isTest {e : Expression} {r : Option Condition} (he : e.isTest)
    (h : Steps (condition scope e) d r d') (hroot : d.joins.root = scope.root) :
    d'.joins.CoversAll (scope.predicates e) := by
  -- what comes after the search for a column binds values and leaves the tables alone
  cases e with
  | comparison token operator term =>
    simp only [condition, steps_bind, steps_pure] at h
    obtain ⟨column, _, hresolve, c, _, hcompare, rfl, rfl⟩ := h
    obtain ⟨hcolumn, -⟩ := hresolve.of_resolve
    obtain ⟨t, -, hnumbers⟩ := writtenFor_compare hcompare
    apply JoinRequest.CoversAll.of_table (hnumbers.joins_eq ▸ hresolve.covers_of_resolve)
    simp [Scope.predicates, hcolumn, Test.table?]
  | range token spec =>
    simp only [condition, steps_bind] at h
    obtain ⟨column, _, hresolve, h⟩ := h
    obtain ⟨hcolumn, -⟩ := hresolve.of_resolve
    split at h
    · rename_i range hrange
      simp only [steps_bind, steps_pure] at h
      obtain ⟨c, _, hwithin, rfl, rfl⟩ := h
      obtain ⟨_, _, -, hnumbers⟩ := writtenFor_within hwithin
      apply JoinRequest.CoversAll.of_table (hnumbers.joins_eq ▸ hresolve.covers_of_resolve)
      intro p hp
      simp only [Scope.predicates, hcolumn, hrange, Option.toList_some, List.flatMap_cons,
        List.flatMap_nil, List.append_nil] at hp
      obtain ⟨bound, -, rfl⟩ := List.mem_map.mp hp
      exact congrArg some column.table_access
    · exact absurd h not_steps_reject
  | like token term =>
    simp only [condition, steps_bind, steps_bindValue, steps_pure] at h
    obtain ⟨column, _, hresolve, _, _, ⟨rfl, rfl⟩, rfl, rfl⟩ := h
    obtain ⟨hcolumn, -⟩ := hresolve.of_resolve
    apply JoinRequest.CoversAll.of_table hresolve.covers_of_resolve
    simp [Scope.predicates, hcolumn, Test.table?]
  | search column term =>
    simp only [condition, steps_bind, steps_pure] at h
    obtain ⟨c, _, hsearch, rfl, rfl⟩ := h
    exact hsearch.covers_of_search hroot
  | present tokens =>
    simp only [condition, steps_bind, steps_pure] at h
    obtain ⟨c, _, hpresent, rfl, rfl⟩ := h
    exact hpresent.covers_of_present
  | expedition codes | project ids =>
    simp only [condition] at h
    split at h
    · simp at h
    · simp only [steps_bind, steps_pure] at h
      obtain ⟨c, _, hamong, rfl, rfl⟩ := h
      exact hamong.covers_of_isAmong
  | not | logical | group | select | selectWith | all | empty => simp [Expression.isTest] at he

/-- Every visit asks for the tables that the predicates of its expression read. -/
theorem Steps.covers {e : Expression} {r : Option Condition} (h : Steps (condition scope e) d r d')
    (hroot : d.joins.root = scope.root) :
    d'.joins.CoversAll (e.nodes.flatMap scope.predicates) := by
  -- on the expression; only leaves have predicates of their own
  induction e generalizing d d' r with
  | comparison | range | like | search | present | expedition | project =>
    rw [Expression.nodes_of_isTest rfl, List.flatMap_singleton]
    exact h.covers_of_isTest rfl hroot
  | not inner ih =>
    simp only [condition, steps_bind] at h
    obtain ⟨_, d₁, hinner, h⟩ := h
    split at h
    · obtain rfl := (steps_pure.mp h).2
      exact ih hinner hroot
    · exact absurd h not_steps_reject
  | logical connective left right ihl ihr =>
    simp only [condition, steps_bind, steps_pure] at h
    obtain ⟨_, d₁, hl, _, _, hr, rfl, rfl⟩ := h
    intro p hp table htable
    -- the node itself has no predicates
    have hp : p ∈ left.nodes.flatMap scope.predicates ++ right.nodes.flatMap scope.predicates := by
      rwa [← List.flatMap_append]
    rcases List.mem_append.mp hp with hp | hp
    · exact (JoinRequest.kept_covers _ _).writes hr.writes (ihl hl hroot p hp table htable)
    · exact ihr hr (hl.writes.joins_root.trans hroot) p hp table htable
  | group inner ih =>
    simp only [condition, steps_bind, steps_pure] at h
    obtain ⟨_, _, hinner, rfl, rfl⟩ := h
    exact ih hinner hroot
  | selectWith entities inner ih =>
    simp only [condition, steps_bind] at h
    obtain ⟨_, _, hselect, hinner⟩ := h
    obtain ⟨-, rfl⟩ := hselect.of_selectEntities
    exact ih hinner ((JoinRequest.root_foldl_select _ _).trans hroot)
  | select | all => exact fun p hp => absurd hp List.not_mem_nil
  | empty => exact absurd h not_steps_reject

end Drafting

end EntityQuery
