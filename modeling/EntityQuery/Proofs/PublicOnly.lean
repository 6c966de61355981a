import EntityQuery.Proofs.ClosedStatement

/-!
# Narrowing to public expeditions

Whether only public rows are asked for decides about the WHERE clause of a statement and about
nothing else. The clause that is there is put into parentheses before the new condition is added,
and what is between them is a complete boolean expression. So the new condition binds at the top
whatever connectives the clause has (`isReading_narrowToPublic`), and rows can only be lost.
-/

namespace EntityQuery

open Sql (Condition IsReading Reads Test Token withoutBlanks)

/-! ## §1 The narrowed clause -/

/-- A clause that is read as the conjunction of another one and the test of the expedition; if the
other one is missing, as that test. -/
def NarrowsToPublic (filter filter' : List Token) : Prop :=
  ∃ f', (∀ g, IsReading filter' g ↔ g = f') ∧
    (filter = [] ∧ (∀ v k, f'.value v k = v k .isPublic) ∨
      ∃ f, (∀ g, IsReading filter g ↔ g = f) ∧
        ∀ v k, f'.value v k = (f.value v k && v (k + f.atoms.length) .isPublic))

theorem Sql.IsReading.iff_eq {tokens : List Token} {f : Formula (Test Nat)}
    (h : IsReading tokens f) (g : Formula (Test Nat)) : IsReading tokens g ↔ g = f :=
  ⟨fun hg => hg.unique h, fun hg => hg ▸ h⟩

theorem Sql.Condition.isReading_narrowToPublic {c : Condition} {f : Formula (Test Nat)}
    (h : IsReading c.tokens f) :
    IsReading (narrowToPublic (some c)).tokens (.and f (.atom .isPublic)) := by
  -- the clause is one factor, as it stands in parentheses
  have hgroup : Reads .factor (withoutBlanks c.group.tokens) f := by
    rw [Condition.tokens, withoutBlanks_parenthesized]
    exact .group h
  rw [IsReading, narrowToPublic, withoutBlanks_tokens_and]
  exact .conjunction (.and hgroup (.factor (.test .isPublic)))

theorem narrowsToPublic_tokens (condition : Option Condition) :
    NarrowsToPublic (condition.elim [] Condition.tokens) (narrowToPublic condition).tokens := by
  cases condition with
  | none =>
    have hreading : IsReading (narrowToPublic none).tokens (.atom .isPublic) :=
      .conjunction (.factor (.test .isPublic))
    exact ⟨_, hreading.iff_eq, .inl ⟨rfl, fun _ _ => rfl⟩⟩
  | some c =>
    obtain ⟨f, hreading, -⟩ := c.exists_isReading
    exact ⟨_, (Condition.isReading_narrowToPublic hreading).iff_eq,
      .inr ⟨f, hreading.iff_eq, fun _ _ => rfl⟩⟩

/-! ## §2 Statements -/

/-- A draft is assembled with the same outcome, and the same values, with and without. -/
theorem Draft.map_params_prepare (d : Draft) (scope : Scope) (network : Nat) (p : Pagination)
    (publicOnly publicOnly' : Bool) :
    (d.prepare scope network publicOnly p).map Sql.Prepared.params =
      (d.prepare scope network publicOnly' p).map Sql.Prepared.params := by
  -- the values are those of the draft, if there is a statement at all
  have hprepare : ∀ b, (d.prepare scope network b p).map Sql.Prepared.params =
      (d.query scope network b p).map fun _ => d.params := by
    intro b
    unfold prepare
    cases d.query scope network b p <;> rfl
  rw [hprepare, hprepare]
  unfold query
  cases d.finalCondition with
  | error error => rfl
  -- whether there is one depends on the condition, the limit, the plan and the window
  | ok condition =>
    by_cases hlimit : p.limit = some 0
    · simp only [hlimit]
      rfl
    · simp only [hlimit]
      cases d.finalJoins.joins scope.schema network with
      | error error => rfl
      | ok joins => cases p.window <;> rfl

theorem Schema.map_params_compile (s : Schema) (root : String) (e : Expression) (o : CompileOptions)
    (publicOnly publicOnly' : Bool) :
    (s.compile root e { o with publicOnly }).map Sql.Prepared.params =
      (s.compile root e { o with publicOnly := publicOnly' }).map Sql.Prepared.params := by
  have hlimit : ∀ b, ({ o with publicOnly := b } : CompileOptions).effectiveLimit =
      o.effectiveLimit := fun _ => rfl
  -- limit, scope and visit take no notice of the restriction
  simp only [compile, hlimit]
  cases o.effectiveLimit with
  | error error => rfl
  | ok limit =>
    cases s.scope o.policy root with
    | error error => rfl
    | ok scope =>
      show (scope.compile o.network publicOnly ⟨o.page, limit⟩ e).map Sql.Prepared.params =
        (scope.compile o.network publicOnly' ⟨o.page, limit⟩ e).map Sql.Prepared.params
      unfold Scope.compile
      split
      · exact Draft.map_params_prepare ..
      · rfl

namespace Compiles

variable {s : Schema} {root : String} {e : Expression} {o : CompileOptions} {scope : Scope}
  {d : Draft} {steps : List JoinStep} {q : Sql.Query}

/-- The statement of the same draft narrowed to public expeditions. -/
theorem narrowed (h : Compiles s root e { o with publicOnly := false } scope d steps q) :
    Compiles s root e { o with publicOnly := true } scope d steps
      { q with filter := (narrowToPublic d.condition).tokens } where
  inScope := h.inScope
  visited := h.visited
  assembled := by
    obtain ⟨limit, rows, hlimit, hassembles⟩ := h.assembled
    refine ⟨limit, rows, hlimit, hassembles.condition, hassembles.limit, hassembles.plan,
      hassembles.window, ?_⟩
    rw [hassembles.query]
    rfl

/-- The expeditions are joined to the rows of the root. -/
theorem expeditions_mem_joins (h : Compiles s root e o scope d steps q) :
    (JoinStep.expeditions scope.root).toJoin o.network ∈ q.joins := by
  obtain ⟨hops, hplan⟩ := h.exists_isPlan
  have hmem : JoinStep.expeditions scope.root ∈ steps := by
    -- a finished draft has always asked for them
    have hexpeditions : d.finalJoins.expeditions = true := rfl
    rw [hplan.steps, h.finalJoins_root, if_pos hexpeditions]
    exact List.mem_append_right _ List.mem_cons_self
  rw [h.joins_eq]
  exact List.mem_map_of_mem hmem

end Compiles

/-- Asking for public rows only can only narrow a query. With and without, it has the same error or
the same parameters; and the two statements differ in their WHERE clauses alone, of which the one
is true exactly when the other one is and the expedition, which both join, is public. -/
theorem Schema.compile_narrows (s : Schema) (root : String) (e : Expression) (o : CompileOptions) :
    (s.compile root e { o with publicOnly := true }).map Sql.Prepared.params =
      (s.compile root e { o with publicOnly := false }).map Sql.Prepared.params ∧
    ∀ p p', s.compile root e { o with publicOnly := false } = .ok p →
      s.compile root e { o with publicOnly := true } = .ok p' →
      ∃ scope d steps, ∃ q q' : Sql.Query,
        Compiles s root e { o with publicOnly := false } scope d steps q ∧
        Compiles s root e { o with publicOnly := true } scope d steps q' ∧
        p = ⟨q.text, d.params⟩ ∧ p' = ⟨q'.text, d.params⟩ ∧
        q' = { q with filter := q'.filter } ∧
        (∃ j ∈ q.joins, JoinsExpeditions root j) ∧
        NarrowsToPublic q.filter q'.filter := by
  refine ⟨s.map_params_compile root e o true false, fun p p' hp hp' => ?_⟩
  obtain ⟨scope, d, steps, q, hcompiles, rfl⟩ := exists_compiles hp
  refine ⟨scope, d, steps, q, _, hcompiles, hcompiles.narrowed, rfl, ?_, rfl,
    ⟨_, hcompiles.expeditions_mem_joins, ?_⟩, ?_⟩
  · -- compiling is a function, so the narrowed statement is the one that was compiled
    obtain ⟨_, _, _, _, hcompiles', rfl⟩ := exists_compiles hp'
    obtain ⟨rfl, rfl⟩ := hcompiles.narrowed.unique hcompiles'
    rfl
  · rw [hcompiles.root_eq]
    exact JoinStep.joinsExpeditions o.network root
  · rw [hcompiles.filter_eq]
    exact narrowsToPublic_tokens d.condition

/-- Events of a year or with samples of a genus, with `OR` on top. -/
def Expression.eitherFieldwork : Expression :=
  .logical .or (.comparison "year" .eq "2019") (.comparison "genus" .eq "Conus")

/-- No row of an expedition that is not public gets past the clause through one of its sides. -/
theorem Schema.compile_narrows_fieldwork :
    ∃ p p', ∃ q q' : Sql.Query,
      Schema.fieldwork.compile "Event" .eitherFieldwork {} = .ok p ∧
      Schema.fieldwork.compile "Event" .eitherFieldwork { publicOnly := true } = .ok p' ∧
      p.text = q.text ∧ p'.text = q'.text ∧ p'.params = p.params ∧ q'.joins = q.joins ∧
      (∃ j ∈ q'.joins, JoinsExpeditions "Event" j) ∧
      ∀ f, IsReading q'.filter f →
        ∀ v : Assignment (Test Nat), (∀ k, v k .isPublic = false) → f.value v 0 = false := by
  have hp : Schema.fieldwork.compile "Event" .eitherFieldwork {} = .ok _ := rfl
  have hp' : Schema.fieldwork.compile "Event" .eitherFieldwork { publicOnly := true } = .ok _ := rfl
  obtain ⟨-, hstatements⟩ := compile_narrows .fieldwork "Event" .eitherFieldwork {}
  obtain ⟨scope, d, steps, q, q', -, -, htext, htext', hrest, hexpeditions, f', hreading,
    hvalue⟩ :=
    hstatements _ _ hp hp'
  have hjoins : q'.joins = q.joins := by rw [hrest]
  refine ⟨_, _, q, q', hp, hp', congrArg Sql.Prepared.text htext, congrArg Sql.Prepared.text htext',
    rfl, hjoins, hjoins ▸ hexpeditions, fun f hf v hv => ?_⟩
  obtain rfl := (hreading f).mp hf
  -- where the clause is the test alone it is false, and so is a conjunction with the test
  rcases hvalue with ⟨-, hvalue⟩ | ⟨g, -, hvalue⟩
  · rw [hvalue, hv]
  · rw [hvalue, hv, Bool.and_false]

end EntityQuery
