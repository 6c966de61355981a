import EntityQuery.Proofs.Written

/-!
# What the WHERE clause means

The condition that a visit arrives at says the formula of the expression (`Writes.meaning_eq`), and
its connectives are nested in the order in which they bind if those of the expression are
(`Writes.wellNested`). So the WHERE clause, which is read by the grammar and not by the shape of
the tree, means what the expression means.

Whatever the nesting, the clause is a complete boolean expression with one reading, and its atoms
are the predicates of the expression.
-/

namespace EntityQuery

open Sql (Condition IsReading Level Params Test)

/-! ## §1 The formula of a condition -/

namespace Expression

variable {scope : Scope} {e : Expression}

/-- The formula of a node that tests the rows is the conjunction of its predicates. -/
theorem formula_of_isTest (he : e.isTest) :
    e.formula scope = Formula.conjunction? ((scope.predicates e).map .atom) := by
  cases e <;> first | rfl | simp [isTest] at he

/-- The atoms of an expression are the predicates of its nodes. -/
theorem atoms_of_formula : ((e.formula scope).map Formula.atoms).getD [] =
    e.nodes.flatMap scope.predicates := by
  have hleaf : ∀ ps : List Predicate,
      ((Formula.conjunction? (ps.map .atom)).map Formula.atoms).getD [] = ps := by
    intro ps
    cases ps <;> simp [Formula.conjunction?, Formula.atoms_foldl_and, Formula.atoms,
      List.flatMap_map]
  -- leaves have their own predicates, and inner nodes none
  induction e with
  | not inner ih =>
    rw [formula, nodes, List.flatMap_cons, ← ih]
    cases inner.formula scope <;> rfl
  | logical connective left right ihl ihr =>
    rw [formula, nodes, List.flatMap_cons, List.flatMap_append, ← ihl, ← ihr]
    cases connective <;> cases left.formula scope <;> cases right.formula scope <;>
      simp [Formula.combine, Formula.atoms, Scope.predicates]
  | group inner ih | selectWith _ inner ih =>
    rw [formula, nodes, List.flatMap_cons, ← ih]
    rfl
  | _ => simp [formula, nodes, hleaf]

end Expression

/-- The formula that a condition stands for, with the values in place of their numbers. -/
def Sql.Condition.meaning (p : Params) (c : Condition) : Formula Predicate :=
  c.formula.map (Test.map p.valueOf)

theorem Sql.Condition.meaning_combine (p : Params) (connective : Connective)
    (first second : Option Condition) :
    (Drafting.combine connective first second).map (meaning p) =
      Formula.combine connective (first.map (meaning p)) (second.map (meaning p)) := by
  cases connective <;> cases first <;> cases second <;> rfl

/-- Numbers are read as the values that they were given to, at any later time. -/
theorem Drafting.WrittenFor.meaning_eq {d d' : Draft} {ps : List Predicate} {c : Condition}
    (h : WrittenFor d ps c d') {p : Params} (hp : d'.params.values <+: p.values) :
    some (c.meaning p) = Formula.conjunction? (ps.map .atom) := by
  obtain ⟨t, ts, rfl, htests, rfl⟩ := h
  have hvalues : (List.range' d.params.next (ps.flatMap Test.values).length).map p.valueOf =
      ps.flatMap Test.values := Params.map_valueOf_of_prefix hp
  have hps : (t :: ts).map (Test.map p.valueOf) = ps := by
    rw [htests]
    exact Test.map_numberAll hvalues
  have hmeaning : (Condition.allOf (.test t) (ts.map .test)).meaning p =
      (ts.map fun t => Formula.atom (t.map p.valueOf)).foldl .and (.atom (t.map p.valueOf)) := by
    rw [Condition.meaning, Condition.formula_allOf, Formula.map_foldl_and]
    simp [Condition.formula, Formula.map, Function.comp_def]
  rw [hmeaning, ← hps]
  simp [Formula.conjunction?, Function.comp_def]

namespace Writes

variable {scope : Scope} {d d' : Draft} {e : Expression} {r : Option Condition}

/-- The condition that a visit arrives at means the formula of the expression. -/
theorem meaning_eq (h : Writes scope d e r d') {p : Params}
    (hp : d'.params.values <+: p.values) : r.map (Condition.meaning p) = e.formula scope := by
  induction h with
  | test he _ h =>
    rw [Expression.formula_of_isTest he]
    exact h.meaning_eq hp
  | not _ ih =>
    rw [Expression.formula, ← ih hp]
    rfl
  | logical connective _ hr ihl ihr =>
    -- the values of the left side were bound first and have kept their numbers
    have hleft := (List.prefix_append _ _).trans (hr.values_params ▸ hp)
    rw [Condition.meaning_combine, ihl hleft, ihr hp]
    rfl
  | @group _ _ inner r _ ih =>
    rw [Expression.formula, ← ih hp]
    cases r <;> rfl
  | select | all => rfl
  | selectWith _ _ ih => exact ih hp

/-- The tests of the condition are the predicates of the expression from left to right. -/
theorem map_tests (h : Writes scope d e r d') :
    (Condition.tests r).map (Test.map d'.params.valueOf) = e.nodes.flatMap scope.predicates := by
  have hmeaning := h.meaning_eq (List.prefix_refl d'.params.values)
  rw [← Expression.atoms_of_formula, ← hmeaning]
  cases r <;> simp [Condition.tests, Condition.meaning]

/-! ## §2 Nesting -/

/-- A visit arrives at a condition if the expression restricts the rows. -/
theorem isSome_eq (h : Writes scope d e r d') : r.isSome = e.restricts := by
  induction h with
  | test he _ _ => simp [Expression.restricts, Expression.nodes_of_isTest he, he]
  | not _ ih | selectWith _ _ ih => simpa using ih
  | @logical _ _ _ _ _ first second _ _ _ ihl ihr =>
    rw [Expression.restricts_logical, ← ihl, ← ihr]
    cases first <;> cases second <;> rfl
  | group _ ih => simpa using ih
  | select | all => rfl

end Writes

/-- The level of a fragment with a connective on top, or none. -/
def Sql.Level.ofOutermost : Option Connective → Level
  | none => .factor
  | some .and => .conjunction
  | some .or => .disjunction

@[simp] theorem Sql.Level.ofOutermost_eq_disjunction {o : Option Connective} :
    ofOutermost o = .disjunction ↔ o = some .or := by
  cases o with
  | none => simp [ofOutermost]
  | some connective => cases connective <;> simp [ofOutermost]

namespace Writes

variable {scope : Scope} {d d' : Draft} {e : Expression} {r : Option Condition}

/-- What stands on top of an expression stands on top of its condition. -/
theorem level_eq (h : Writes scope d e r d') : ∀ c ∈ r, c.level = .ofOutermost e.outermost := by
  induction h with
  | @test _ _ e _ _ he _ h =>
    obtain ⟨t, ts, rfl, -⟩ := h
    have hnone : e.outermost = none := by
      cases e <;> first | rfl | simp [Expression.isTest] at he
    simp [hnone, Condition.level_allOf_test, Level.ofOutermost]
  | not | group | select | all => simp [Condition.level, Expression.outermost, Level.ofOutermost]
  | @logical _ _ _ left right first second connective hl hr ihl ihr =>
    rw [Expression.outermost, ← hl.isSome_eq, ← hr.isSome_eq]
    -- a side without condition leaves no trace of the connective
    cases first with
    | none => simpa [Drafting.combine] using ihr
    | some =>
      cases second with
      | none => simpa [Drafting.combine] using ihl
      | some => cases connective <;> simp [Drafting.combine, Drafting.connect, Condition.level,
          Level.ofOutermost]
  | selectWith _ _ ih => exact ih

/-- A well nested expression has a well nested condition. -/
theorem wellNested (h : Writes scope d e r d') (he : e.WellNested) : ∀ c ∈ r, c.WellNested := by
  induction h with
  | test _ _ h =>
    obtain ⟨t, ts, rfl, -⟩ := h
    simpa using Condition.wellNested_allOf_tests t ts
  | not h ih =>
    have hlevel := h.level_eq _ rfl
    rw [he.2] at hlevel
    simpa [Condition.WellNested, hlevel, Level.ofOutermost] using ih he.1
  | @logical _ _ _ left right first second connective hl hr ihl ihr =>
    obtain ⟨hleft, hright, hand⟩ := he
    rw [← hl.isSome_eq, ← hr.isSome_eq] at hand
    cases first with
    | none => simpa [Drafting.combine] using ihr hright
    | some c =>
      cases second with
      | none => simpa [Drafting.combine] using ihl hleft
      | some c' =>
        have hc := ihl hleft c rfl
        have hc' := ihr hright c' rfl
        have hlevel := hl.level_eq c rfl
        have hlevel' := hr.level_eq c' rfl
        cases connective with
        | and =>
          -- both sides have a condition, so nesting was asked of them
          obtain ⟨hne, hne'⟩ := hand rfl rfl rfl
          simp [Drafting.combine, Drafting.connect, Condition.WellNested, hc, hc', hlevel, hlevel',
            hne, hne']
        | or => simp [Drafting.combine, Drafting.connect, Condition.WellNested, hc, hc']
  | group _ ih => simpa [Condition.WellNested] using ih he
  | select | all => simp
  | selectWith _ _ ih => exact ih he

end Writes

/-! ## §3 One visit -/

/-- A visit succeeds if its steps do, and adds the condition that they arrive at. -/
theorem Draft.visit_eq_ok {d d' : Draft} {scope : Scope} {e : Expression} :
    d.visit scope e = (.ok (), d') ↔ ∃ r d₁, Drafting.Steps (Drafting.condition scope e) d r d₁ ∧
      d' = { d₁ with condition := Drafting.combine .and d₁.condition r } := by
  have hsteps : d.visit scope e = (.ok (), d') ↔ Drafting.Steps (Drafting.visit scope e) d () d' :=
    Iff.rfl
  rw [hsteps, Drafting.visit, Drafting.steps_bind]
  simp [Drafting.restrict, eq_comm]

/-- What a successful visit adds to the WHERE clause: nothing if the expression restricts nothing,
and otherwise a fragment with one reading. Its atoms are the predicates of the expression from left
to right, and if the expression is well nested, it is true exactly when the expression is. -/
theorem Draft.visit_means_expression {d d' : Draft} {scope : Scope} {e : Expression}
    (hvisit : d.visit scope e = (.ok (), d')) :
    ∃ r, d'.condition = Drafting.combine .and d.condition r ∧ r.isSome = e.restricts ∧
      ∀ c ∈ r, ∃ f, (∀ g, IsReading c.tokens g ↔ g = f) ∧
        (f.map (Test.map d'.params.valueOf)).atoms = e.nodes.flatMap scope.predicates ∧
        (e.WellNested → ∃ m, e.formula scope = some m ∧
          ∀ v k, (f.map (Test.map d'.params.valueOf)).value v k = m.value v k) := by
  -- the visit is a derivation of `Writes`, from which everything else is read off
  obtain ⟨r, d₁, hsteps, rfl⟩ := visit_eq_ok.mp hvisit
  have hwrites := hsteps.writes
  have hmeaning := hwrites.meaning_eq (List.prefix_refl d₁.params.values)
  refine ⟨r, by rw [hwrites.condition_eq], hwrites.isSome_eq, ?_⟩
  rintro c rfl
  rw [Option.map_some] at hmeaning
  obtain ⟨f, hreading, hatoms⟩ := c.exists_isReading
  refine ⟨f, fun g => ⟨fun hg => hg.unique hreading, fun hg => hg ▸ hreading⟩, ?_, ?_⟩
  · rw [Formula.atoms_map, hatoms]
    exact hwrites.map_tests
  · intro he
    have hagrees := (hwrites.wellNested he c rfl).agrees hreading
    exact ⟨_, hmeaning.symm, (hagrees.map _).value⟩

theorem Draft.visit_means_expression_fieldwork :
    ∃ d c f m, Scope.fieldwork.emptyDraft.visit .fieldwork .fieldwork = (.ok (), d) ∧
      d.condition = some c ∧ (∀ g, IsReading c.tokens g ↔ g = f) ∧
      Expression.fieldwork.formula .fieldwork = some m ∧
      ∀ v k, (f.map (Test.map d.params.valueOf)).value v k = m.value v k := by
  have hvisit : Scope.fieldwork.emptyDraft.visit .fieldwork .fieldwork = (.ok (), _) := rfl
  obtain ⟨r, hcondition, hsome, hfragment⟩ := visit_means_expression hvisit
  obtain ⟨c, rfl⟩ := Option.isSome_iff_exists.mp (hsome.trans rfl)
  obtain ⟨f, hreading, -, hvalue⟩ := hfragment c rfl
  obtain ⟨m, hm, hvalue⟩ := hvalue (by simp [Expression.fieldwork, Expression.WellNested,
    Expression.outermost])
  exact ⟨_, c, f, m, rfl, hcondition, hreading, hm, hvalue⟩

end EntityQuery
