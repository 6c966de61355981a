import EntityQuery.Proofs.Clauses

/-!
# All rows or a condition

A query either restricts the rows or asks for all of them. Whether it does is decided when its draft
is finished: from a flag that `all` sets wherever it stands, and from whether a condition has come
about, though on the way conditions that are missing are passed over without notice. The two agree
with the tree: the flag is set exactly if one of its nodes is `all` (`Writes.all_eq`), and there is
a condition exactly if one of its nodes tests the rows (`Writes.isSome_eq`).
-/

namespace EntityQuery

open Sql (Condition Query)

/-! ## §1 The flag and the nodes -/

/-- A node that tests the rows has no node of another kind. -/
theorem Expression.not_mem_nodes_of_isTest {e node : Expression} (he : e.isTest = true)
    (hnode : node.isTest = false) : node ∉ e.nodes := by
  rw [nodes_of_isTest he, List.mem_singleton]
  intro heq
  exact absurd (heq ▸ he) (by simp [hnode])

namespace Writes

variable {scope : Scope} {d d' : Draft} {e : Expression} {r : Option Condition}

/-- What says nothing is in no expression that can be visited. -/
theorem empty_not_mem (h : Writes scope d e r d') : .empty ∉ e.nodes := by
  induction h with
  | test he _ _ => exact Expression.not_mem_nodes_of_isTest he rfl
  | not _ ih | group _ ih | selectWith _ _ ih => simpa [Expression.nodes] using ih
  | logical _ _ _ ihl ihr => simp [Expression.nodes, ihl, ihr]
  | select | all => simp [Expression.nodes]

/-- A visit sets the flag exactly if one of the nodes asks for all rows. -/
theorem all_eq (h : Writes scope d e r d') :
    d'.all = (d.all || decide (.all ∈ e.nodes)) := by
  induction h with
  | test he _ h =>
    obtain ⟨_, _, -, -, rfl⟩ := h
    rw [decide_eq_false (Expression.not_mem_nodes_of_isTest he rfl), Bool.or_false]
    rfl
  | not _ ih | group _ ih => simpa [Expression.nodes] using ih
  | logical _ _ _ ihl ihr => simp [Expression.nodes, ihl, ihr, Bool.or_assoc]
  | select _ => simp [Expression.nodes, Draft.withJoins]
  | selectWith _ _ ih => simpa [Expression.nodes, Draft.withJoins] using ih
  | all => simp [Expression.nodes]

end Writes

/-- A successful visit of an empty draft finds a condition exactly if the expression restricts the
rows, and sets the flag exactly if it asks for all of them. -/
theorem Draft.of_visit_emptyDraft {scope : Scope} {e : Expression} {d : Draft}
    (h : scope.emptyDraft.visit scope e = (.ok (), d)) :
    .empty ∉ e.nodes ∧ d.condition.isSome = e.restricts ∧ d.all = decide (.all ∈ e.nodes) := by
  obtain ⟨r, d', hsteps, rfl⟩ := visit_eq_ok.mp h
  have hwrites := hsteps.writes
  -- nothing was there before
  have hcondition : Drafting.combine .and d'.condition r = r := by
    rw [hwrites.condition_eq]
    rfl
  refine ⟨hwrites.empty_not_mem, ?_, ?_⟩
  · rw [hcondition, hwrites.isSome_eq]
  · rw [hwrites.all_eq]
    rfl

/-- A draft is finished if it has a condition and the flag is not set, or the other way round. -/
theorem Draft.finalCondition_eq (d : Draft) :
    d.finalCondition =
      if d.all = d.condition.isSome then
        .error (.invalid (if d.condition.isSome then .allWithPredicate else .emptyQuery))
      else .ok d.condition := by
  unfold finalCondition
  cases d.condition <;> cases d.all <;> rfl

/-! ## §2 Compiled queries -/

/-- The WHERE clause of a statement for all expeditions is that of the expression. -/
theorem Compiles.filter_ne_nil_iff {s : Schema} {root : String} {e : Expression}
    {o : CompileOptions} {scope : Scope} {d : Draft} {steps : List JoinStep} {q : Query}
    (h : Compiles s root e o scope d steps q) :
    q.filter ≠ [] ↔ o.publicOnly = true ∨ e.restricts = true := by
  obtain ⟨_, hcondition, -⟩ := Draft.of_visit_emptyDraft h.visited
  have htokens : ∀ c : Condition, c.tokens ≠ [] := by
    intro c
    obtain ⟨f, hf, -⟩ := c.exists_isReading
    intro hnil
    exact Sql.Reads.ne_nil hf (by rw [hnil]; rfl)
  rw [← hcondition, h.filter_eq, Draft.filter]
  cases o.publicOnly <;> cases d.condition <;> simp [htokens]

/-- A query compiles only if nothing in it is empty and it either asks for all rows, wherever it
does so, or restricts them, and not both; there is a WHERE clause exactly if it restricts them or
only public expeditions are wanted. A query that can be visited and does both, or neither, is
invalid. -/
theorem Schema.compile_all_or_some (s : Schema) (root : String) (e : Expression)
    (o : CompileOptions) :
    (∀ p, s.compile root e o = .ok p →
      .empty ∉ e.nodes ∧ (.all ∈ e.nodes ↔ e.restricts = false) ∧
      ∃ scope d steps q, Compiles s root e o scope d steps q ∧ p = ⟨q.text, d.params⟩ ∧
        (.keyword .WHERE ∈ q.tokens ↔ o.publicOnly = true ∨ e.restricts = true)) ∧
    ∀ scope d, s.scope o.policy root = .ok scope → scope.emptyDraft.visit scope e = (.ok (), d) →
      (.all ∈ e.nodes ↔ e.restricts = true) →
      s.compile root e o = .error (.invalid
        (if o.limit = some 0 then .zeroLimit
          else if e.restricts then .allWithPredicate else .emptyQuery)) := by
  constructor
  · intro p hp
    obtain ⟨scope, d, steps, q, hcompiles, rfl⟩ := exists_compiles hp
    obtain ⟨hempty, hcondition, hall⟩ := Draft.of_visit_emptyDraft hcompiles.visited
    obtain ⟨_, _, -, hassembles⟩ := hcompiles.assembled
    have hfinal := hassembles.condition
    rw [Draft.finalCondition_eq, hall, hcondition] at hfinal
    refine ⟨hempty, ?_, scope, d, steps, q, hcompiles, rfl, ?_⟩
    · -- the draft was finished, so of the flag and the condition there is one and not the other
      split at hfinal
      · exact absurd hfinal (by simp)
      · rename_i hdiffer
        have hnot : decide (.all ∈ e.nodes) = !e.restricts := Bool.eq_not_of_ne hdiffer
        rw [← Bool.not_eq_true', ← hnot, decide_eq_true_iff]
    · rw [hcompiles.keyword_mem_tokens_iff (.inl rfl), ← hcompiles.filter_ne_nil_iff]
      simp
  · intro scope d hscope hvisit hboth
    obtain ⟨-, hcondition, hall⟩ := Draft.of_visit_emptyDraft hvisit
    -- the draft cannot be finished, whatever the page is
    have hprepare : ∀ limit, d.prepare scope o.network o.publicOnly ⟨o.page, limit⟩ =
        .error (.invalid (if e.restricts then .allWithPredicate else .emptyQuery)) := by
      intro limit
      have hflag : d.all = d.condition.isSome := by
        rw [hall, hcondition, Bool.eq_iff_iff, decide_eq_true_iff]
        exact hboth
      rw [Draft.prepare, Draft.query, Draft.finalCondition_eq, if_pos hflag, hcondition]
      rfl
    rw [Schema.compile_eq_of_visit hscope hvisit]
    -- the page is looked at first
    unfold CompileOptions.effectiveLimit
    split
    · rename_i hlimit
      rw [if_pos hlimit]
      rfl
    · rename_i limit hzero hlimit
      rw [if_neg fun h => hzero (Option.some.inj (hlimit.symm.trans h))]
      exact hprepare _
    · rename_i hlimit
      rw [if_neg (by simp [hlimit])]
      exact hprepare _

/-- Events of a genus, or all of them. -/
def Expression.allOrConus : Expression :=
  .logical .or (.comparison "genus" .eq "Conus") (.selectWith ["Sample"] (.group .all))

/-- That all rows are wanted is noticed within a group within a selection. -/
theorem Schema.compile_all_or_some_fieldwork :
    (∃ q : Query, ∃ params, Schema.fieldwork.compile "Event" .fieldwork {} = .ok ⟨q.text, params⟩ ∧
      .keyword .WHERE ∈ q.tokens) ∧
    (∃ q : Query, ∃ params, Schema.fieldwork.compile "Event" (.group .all) {} =
      .ok ⟨q.text, params⟩ ∧ .keyword .WHERE ∉ q.tokens) ∧
    Schema.fieldwork.compile "Event" .allOrConus {} = .error (.invalid .allWithPredicate) := by
  have hsome : Schema.fieldwork.compile "Event" .fieldwork {} = .ok _ := rfl
  have hall : Schema.fieldwork.compile "Event" (.group .all) {} = .ok _ := rfl
  refine ⟨?_, ?_, ?_⟩
  · obtain ⟨-, -, _, d, _, q, -, hp, hwhere⟩ :=
      (compile_all_or_some .fieldwork "Event" .fieldwork {}).1 _ hsome
    exact ⟨q, d.params, hsome.trans (congrArg _ hp), hwhere.mpr (.inr rfl)⟩
  · obtain ⟨-, -, _, d, _, q, -, hp, hwhere⟩ :=
      (compile_all_or_some .fieldwork "Event" (.group .all) {}).1 _ hall
    refine ⟨q, d.params, hall.trans (congrArg _ hp), fun hmem => ?_⟩
    exact absurd (hwhere.mp hmem) (by simp [Expression.restricts, Expression.nodes,
      Expression.isTest])
  · have hscope : Schema.fieldwork.scope .declarationOrder "Event" = .ok .fieldwork := rfl
    have hvisit : Scope.fieldwork.emptyDraft.visit .fieldwork .allOrConus = (.ok (), _) := rfl
    have hboth : .all ∈ Expression.allOrConus.nodes ↔ Expression.allOrConus.restricts = true := by
      simp [Expression.allOrConus, Expression.restricts, Expression.nodes, Expression.isTest]
    exact (compile_all_or_some .fieldwork "Event" .allOrConus {}).2 _ _ hscope hvisit hboth

end EntityQuery
