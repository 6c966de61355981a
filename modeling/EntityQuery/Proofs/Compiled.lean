import EntityQuery.Compile
import EntityQuery.Proofs.WhereClause

/-!
# Compiled statements

What a statement is made of when a query compiles: the parts of the statement as the finished draft
determines them, and the draft as the visit of the expression has left it.
-/

namespace EntityQuery

open Sql (Condition)

/-! ## §1 The statement of a draft -/

/-- The condition that a statement is filtered by. -/
def Draft.filter (d : Draft) (publicOnly : Bool) : Option Condition :=
  if publicOnly then some (narrowToPublic d.condition) else d.condition

/-- The restriction to public expeditions adds one test. -/
theorem Draft.mem_tests_filter {d : Draft} {publicOnly : Bool} {t : Sql.Test Nat} :
    t ∈ Condition.tests (d.filter publicOnly) ↔
      t ∈ Condition.tests d.condition ∨ publicOnly = true ∧ t = .isPublic := by
  cases publicOnly <;> cases hc : d.condition <;>
    simp [filter, hc, narrowToPublic, Condition.tests, Condition.formula, Formula.atoms]

/-- The statement of a draft whose joins and window are known. -/
def Draft.statement (d : Draft) (scope : Scope) (network : Nat) (publicOnly : Bool)
    (joins : List Sql.Join) (window : Option Window) : Sql.Query where
  select := entityItems scope.root ++ expeditionItems ++
    (d.finalJoins.selection scope.schema).flatMap entityItems
  source := entityTable network scope.root
  joins
  filter := (d.filter publicOnly).elim [] Condition.tokens
  orderBy := rootOrder scope.root
  offset := window.map (·.offset)
  limit := window.map (·.limit)

/-- The parts that have been found when a draft has a statement. -/
structure Assembles (d : Draft) (scope : Scope) (network : Nat) (publicOnly : Bool)
    (p : Pagination) (steps : List JoinStep) (rows : Option Window) (q : Sql.Query) : Prop where
  condition : d.finalCondition = .ok d.condition
  limit : p.limit ≠ some 0
  plan : d.finalJoins.plan scope.schema = .ok steps
  window : p.window = .ok rows
  query : q = d.statement scope network publicOnly (steps.map (JoinStep.toJoin network)) rows

theorem Draft.eq_of_finalCondition {d : Draft} {c : Option Condition}
    (h : d.finalCondition = .ok c) : c = d.condition := by
  unfold finalCondition at h
  -- two of the cases are errors, and the third one hands the condition on
  split at h
  · exact absurd h (by simp)
  · exact absurd h (by simp)
  · exact (Except.ok.inj h).symm

theorem exists_of_map_eq_ok {ε α β : Type} {x : Except ε α} {f : α → β} {b : β}
    (h : x.map f = .ok b) : ∃ a, x = .ok a ∧ f a = b := by
  cases x with
  | error e => exact absurd h (by simp [Except.map])
  | ok a => exact ⟨a, rfl, Except.ok.inj h⟩

theorem exists_of_isOk {ε α : Type} {x : Except ε α} (h : x.isOk = true) : ∃ a, x = .ok a := by
  cases x with
  | error e => exact absurd h Bool.false_ne_true
  | ok a => exact ⟨a, rfl⟩

theorem Draft.exists_assembles {d : Draft} {scope : Scope} {network : Nat} {publicOnly : Bool}
    {p : Pagination} {q : Sql.Query} (h : d.query scope network publicOnly p = .ok q) :
    ∃ steps rows, Assembles d scope network publicOnly p steps rows q := by
  unfold query at h
  obtain ⟨c, hc, h⟩ := exists_of_bind_eq_ok h
  obtain rfl := eq_of_finalCondition hc
  -- each step of the assembly has succeeded
  by_cases hlimit : p.limit = some 0
  · rw [if_pos hlimit] at h
    obtain ⟨_, hthrow, -⟩ := exists_of_bind_eq_ok h
    exact absurd hthrow (by simp [throw, throwThe, MonadExceptOf.throw])
  · rw [if_neg hlimit] at h
    obtain ⟨joins, hjoins, h⟩ := exists_of_bind_eq_ok h
    obtain ⟨rows, hrows, h⟩ := exists_of_bind_eq_ok h
    obtain ⟨steps, hplan, rfl⟩ := exists_of_map_eq_ok hjoins
    exact ⟨steps, rows, hc, hlimit, hplan, hrows, (Except.ok.inj h).symm⟩

/-- What has all its parts is the statement of its draft. -/
theorem Assembles.query_eq {d : Draft} {scope : Scope} {network : Nat} {publicOnly : Bool}
    {p : Pagination} {steps : List JoinStep} {rows : Option Window} {q : Sql.Query}
    (h : Assembles d scope network publicOnly p steps rows q) :
    d.query scope network publicOnly p = .ok q := by
  have hjoins : d.finalJoins.joins scope.schema network =
      .ok (steps.map (JoinStep.toJoin network)) := by
    rw [JoinRequest.joins, h.plan]
    rfl
  unfold Draft.query
  rw [h.condition, hjoins, h.window, h.query]
  simp only [if_neg h.limit]
  rfl

/-! ## §2 The statement of an expression -/

/-- To compile is to visit and then to assemble. -/
theorem Scope.compile_eq (scope : Scope) (network : Nat) (publicOnly : Bool) (p : Pagination)
    (e : Expression) :
    scope.compile network publicOnly p e =
      Drafting.attempt (Drafting.visit scope e) scope.emptyDraft >>= fun r =>
        r.2.prepare scope network publicOnly p := by
  have hvisit : scope.emptyDraft.visit scope e =
      Drafting.outcome (Drafting.visit scope e) scope.emptyDraft := rfl
  rw [compile, hvisit, Drafting.attempt]
  -- both go on with the draft of a visit that has succeeded
  obtain ⟨error | _, d⟩ := Drafting.outcome (Drafting.visit scope e) scope.emptyDraft <;> rfl

/-- A scope is that of a declared root. -/
theorem Schema.of_scope {s : Schema} {policy : ColumnPolicy} {root : String} {scope : Scope}
    (h : s.scope policy root = .ok scope) :
    scope.schema = s ∧ scope.root = root ∧ s.Declares [root] := by
  -- a root that is found is declared, under its own name
  unfold Schema.scope at h
  split at h
  · rename_i e he
    obtain rfl := Except.ok.inj h
    obtain ⟨hmem, hname⟩ := mem_entities_of_entity? he
    refine ⟨rfl, hname, fun name hmem' => ⟨e, hmem, ?_⟩⟩
    rw [hname, List.mem_singleton.mp hmem']
  · exact absurd h (by simp)

/-- Either no expression compiles, or all of them are compiled in one scope. -/
theorem Schema.compile_cases (s : Schema) (root : String) (o : CompileOptions) :
    (∃ error, ∀ e, s.compile root e o = .error error) ∨
      ∃ scope limit, s.scope o.policy root = .ok scope ∧
        ∀ e, s.compile root e o =
          scope.compile o.network o.publicOnly ⟨o.page, limit⟩ e := by
  unfold compile
  -- limit and scope do not depend on the expression
  cases o.effectiveLimit with
  | error error => exact .inl ⟨error, fun _ => rfl⟩
  | ok limit =>
    cases s.scope o.policy root with
    | error error => exact .inl ⟨error, fun _ => rfl⟩
    | ok scope => exact .inr ⟨scope, limit, rfl, fun _ => rfl⟩

/-- An expression that can be visited compiles as its draft can be finished. -/
theorem Schema.compile_eq_of_visit {s : Schema} {root : String} {e : Expression}
    {o : CompileOptions} {scope : Scope} {d : Draft} (hscope : s.scope o.policy root = .ok scope)
    (hvisit : scope.emptyDraft.visit scope e = (.ok (), d)) :
    s.compile root e o = o.effectiveLimit.bind fun limit =>
      d.prepare scope o.network o.publicOnly ⟨o.page, limit⟩ := by
  unfold compile
  rw [hscope]
  cases o.effectiveLimit with
  | error _ => rfl
  | ok limit =>
    show scope.compile o.network o.publicOnly ⟨o.page, limit⟩ e = _
    rw [Scope.compile, hvisit]
    rfl

/-- The parts that have been found when an expression has been compiled. -/
structure Compiles (s : Schema) (root : String) (e : Expression) (o : CompileOptions)
    (scope : Scope) (d : Draft) (steps : List JoinStep) (q : Sql.Query) : Prop where
  inScope : s.scope o.policy root = .ok scope
  visited : scope.emptyDraft.visit scope e = (.ok (), d)
  assembled : ∃ limit rows, o.effectiveLimit = .ok limit ∧
    Assembles d scope o.network o.publicOnly ⟨o.page, limit⟩ steps rows q

theorem Schema.exists_compiles {s : Schema} {root : String} {e : Expression} {o : CompileOptions}
    {p : Sql.Prepared} (h : s.compile root e o = .ok p) :
    ∃ scope d steps q, Compiles s root e o scope d steps q ∧ p = ⟨q.text, d.params⟩ := by
  unfold compile at h
  obtain ⟨limit, hlimit, h⟩ := exists_of_bind_eq_ok h
  obtain ⟨scope, hscope, h⟩ := exists_of_bind_eq_ok h
  unfold Scope.compile at h
  -- the visit has succeeded, or its error would be the outcome
  split at h
  · rename_i d hvisit
    obtain ⟨q, hquery, rfl⟩ := exists_of_map_eq_ok h
    obtain ⟨steps, rows, hassembles⟩ := Draft.exists_assembles hquery
    exact ⟨scope, d, steps, q, ⟨hscope, hvisit, limit, rows, hlimit, hassembles⟩, rfl⟩
  · exact absurd h (by simp)

/-- An expression with all these parts compiles to its statement. -/
theorem Compiles.compile_eq {s : Schema} {root : String} {e : Expression} {o : CompileOptions}
    {scope : Scope} {d : Draft} {steps : List JoinStep} {q : Sql.Query}
    (h : Compiles s root e o scope d steps q) : s.compile root e o = .ok ⟨q.text, d.params⟩ := by
  obtain ⟨limit, rows, hlimit, hassembles⟩ := h.assembled
  unfold Schema.compile
  rw [hlimit, h.inScope]
  show scope.compile o.network o.publicOnly ⟨o.page, limit⟩ e = _
  rw [Scope.compile, h.visited]
  show d.prepare scope o.network o.publicOnly ⟨o.page, limit⟩ = _
  rw [Draft.prepare, hassembles.query_eq]
  rfl

/-! ## §3 The finished draft -/

theorem JoinRequest.Requires.root_eq {s : Schema} {r r' : JoinRequest} (h : Requires s r r') :
    r'.root = r.root := by
  induction h with
  | refl => rfl
  | @entity r' e h he ih =>
    rw [← ih, JoinRequest.require]
    split <;> rfl
  | expeditions _ ih => exact ih

theorem JoinRequest.root_foldl_select (r : JoinRequest) (names : List String) :
    (names.foldl select r).root = r.root := by
  induction names generalizing r with
  | nil => rfl
  | cons name names ih =>
    rw [List.foldl_cons, ih, select]
    split <;> rfl

theorem JoinRequest.declares_foldl_select {s : Schema} {r : JoinRequest} {names : List String}
    (hselected : s.Declares r.selected) (hnames : s.Declares names) :
    s.Declares (names.foldl select r).selected := by
  induction names generalizing r with
  | nil => exact hselected
  -- selecting a name adds it, or nothing if it is that of the root
  | cons name names ih =>
    apply ih _ fun name' hname' => hnames name' (List.mem_cons_of_mem _ hname')
    unfold select
    split
    · exact hselected
    · intro name' hname'
      rcases List.mem_cons.mp hname' with rfl | hname'
      · exact hnames name' List.mem_cons_self
      · exact hselected name' hname'

namespace Writes

variable {scope : Scope} {d d' : Draft} {e : Expression} {r : Option Condition}

theorem joins_root (h : Writes scope d e r d') : d'.joins.root = d.joins.root := by
  induction h with
  -- on the visits of the parts, which only select
  | test _ hjoins h =>
    obtain ⟨_, _, -, -, rfl⟩ := h
    exact hjoins.root_eq
  | not _ ih | group _ ih => exact ih
  | logical _ _ _ ihl ihr => exact ihr.trans ihl
  | select _ => exact JoinRequest.root_foldl_select _ _
  | selectWith _ _ ih => exact ih.trans (JoinRequest.root_foldl_select _ _)
  | all => rfl

/-- A visit adds only entities of the schema to the result. -/
theorem declares_selected (h : Writes scope d e r d')
    (hd : scope.schema.Declares d.joins.selected) : scope.schema.Declares d'.joins.selected := by
  -- a test asks for entities without showing them
  induction h with
  | test _ hjoins h =>
    obtain ⟨_, _, -, -, rfl⟩ := h
    exact hjoins.selected_eq ▸ hd
  | not _ ih | group _ ih => exact ih hd
  | logical _ _ _ ihl ihr => exact ihr (ihl hd)
  | select hentities => exact JoinRequest.declares_foldl_select hd hentities
  | selectWith hentities _ ih => exact ih (JoinRequest.declares_foldl_select hd hentities)
  | all => exact hd

end Writes

namespace Compiles

variable {s : Schema} {root : String} {e : Expression} {o : CompileOptions} {scope : Scope}
  {d : Draft} {steps : List JoinStep} {q : Sql.Query}

theorem schema_eq (h : Compiles s root e o scope d steps q) : scope.schema = s :=
  (Schema.of_scope h.inScope).1

theorem root_eq (h : Compiles s root e o scope d steps q) : scope.root = root :=
  (Schema.of_scope h.inScope).2.1

theorem declares_root (h : Compiles s root e o scope d steps q) : s.Declares [scope.root] :=
  h.root_eq ▸ (Schema.of_scope h.inScope).2.2

theorem source_eq (h : Compiles s root e o scope d steps q) :
    q.source = some (entityTable o.network root) := by
  obtain ⟨_, _, -, hassembles⟩ := h.assembled
  rw [hassembles.query, ← h.root_eq]
  rfl

theorem joins_eq (h : Compiles s root e o scope d steps q) :
    q.joins = steps.map (JoinStep.toJoin o.network) := by
  obtain ⟨_, _, -, hassembles⟩ := h.assembled
  rw [hassembles.query]
  rfl

theorem select_eq (h : Compiles s root e o scope d steps q) :
    q.select = entityItems scope.root ++ expeditionItems ++
      (d.joins.selection scope.schema).flatMap entityItems := by
  obtain ⟨_, _, -, hassembles⟩ := h.assembled
  rw [hassembles.query]
  rfl

theorem filter_eq (h : Compiles s root e o scope d steps q) :
    q.filter = (d.filter o.publicOnly).elim [] Condition.tokens := by
  obtain ⟨_, _, -, hassembles⟩ := h.assembled
  rw [hassembles.query]
  rfl

theorem orderBy_eq (h : Compiles s root e o scope d steps q) :
    q.orderBy = rootOrder scope.root := by
  obtain ⟨_, _, -, hassembles⟩ := h.assembled
  rw [hassembles.query]
  rfl

/-- A query has one draft and one statement. -/
theorem unique {scope' : Scope} {d' : Draft} {steps' : List JoinStep} {q' : Sql.Query}
    (h : Compiles s root e o scope d steps q) (h' : Compiles s root e o scope' d' steps' q') :
    d = d' ∧ q = q' := by
  obtain rfl : scope = scope' := Except.ok.inj (h.inScope.symm.trans h'.inScope)
  obtain rfl : d = d' := (Prod.mk.inj (h.visited.symm.trans h'.visited)).2
  obtain ⟨limit, rows, hlimit, hassembles⟩ := h.assembled
  obtain ⟨limit', rows', hlimit', hassembles'⟩ := h'.assembled
  obtain rfl : limit = limit' := Except.ok.inj (hlimit.symm.trans hlimit')
  obtain rfl : steps = steps' := Except.ok.inj (hassembles.plan.symm.trans hassembles'.plan)
  obtain rfl : rows = rows' := Except.ok.inj (hassembles.window.symm.trans hassembles'.window)
  exact ⟨rfl, hassembles.query.trans hassembles'.query.symm⟩

/-- The draft is what the visit of the expression on an empty draft leaves. -/
theorem exists_writes (h : Compiles s root e o scope d steps q) :
    ∃ d', Writes scope scope.emptyDraft e d.condition d' ∧ d'.params = d.params ∧
      d'.joins = d.joins := by
  obtain ⟨r, d', hsteps, rfl⟩ := Draft.visit_eq_ok.mp h.visited
  have hwrites := hsteps.writes
  -- nothing was visited before
  have hnone : d'.condition = none := hwrites.condition_eq
  exact ⟨d', by simpa [hnone, Drafting.combine] using hwrites, rfl, rfl⟩

end Compiles

end EntityQuery
