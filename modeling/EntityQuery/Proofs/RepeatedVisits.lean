import EntityQuery.Proofs.WhereClause

/-!
# Repeated visits

Expressions that are visited one after the other leave their conditions one after the other with
`AND` between them, and no parentheses. The WHERE clause then means that all expressions hold if
there is only one condition or none of them has `OR` on top. Otherwise it does not: some disjunct
of one condition stands alone, and makes the clause true whatever another condition says.
-/

namespace EntityQuery

open Sql (Condition IsReading Level Params Reads Test Token withoutBlanks)

/-! ## §1 Disjunctions under `AND` -/

namespace Formula

variable {α : Type}

theorem allTrue_map {β : Type} (h : α → β) (v : Assignment β) (k : Nat) (fs : List (Formula α)) :
    allTrue v k (fs.map (map h)) = allTrue (fun i a => v i (h a)) k fs := by
  induction fs generalizing k with
  | nil => rfl
  | cons f fs ih => simp [allTrue, ih]

end Formula

namespace Sql

/-- A fragment with `OR` on top. -/
def IsDisjunction (s : List Token) : Prop :=
  ∃ s₁ s₂ f₁ f₂, s = s₁ ++ .keyword .OR :: s₂ ∧
    Reads .conjunction s₁ f₁ ∧ Reads .disjunction s₂ f₂

namespace IsDisjunction

variable {s t : List Token} {f g : Formula (Test Nat)}

theorem or (hs : Reads .disjunction s f) (ht : Reads .disjunction t g) :
    IsDisjunction (s ++ .keyword .OR :: t) := by
  cases hs with
  | conjunction hs => exact ⟨s, t, f, g, rfl, hs, ht⟩
  | @or s₁ s₂ f₁ f₂ hs₁ hs₂ =>
    obtain ⟨h, hreads, -⟩ := hs₂.exists_or ht
    refine ⟨s₁, _, f₁, h, ?_, hs₁, hreads⟩
    rw [List.append_assoc, List.cons_append]

/-- `AND` after a disjunction binds to its last part only. -/
theorem and_right (hs : IsDisjunction s) (ht : Reads .disjunction t g) :
    IsDisjunction (s ++ .keyword .AND :: t) := by
  obtain ⟨s₁, s₂, f₁, f₂, rfl, h₁, h₂⟩ := hs
  obtain ⟨h, hreads, -⟩ := h₂.exists_and ht
  refine ⟨s₁, s₂ ++ .keyword .AND :: t, f₁, h, ?_, h₁, hreads⟩
  rw [List.append_assoc, List.cons_append]

/-- `AND` before a disjunction binds to its first part only. -/
theorem and_left (hs : Reads .disjunction s f) (ht : IsDisjunction t) :
    IsDisjunction (s ++ .keyword .AND :: t) := by
  obtain ⟨t₁, t₂, g₁, g₂, rfl, h₁, h₂⟩ := ht
  cases hs with
  | conjunction hs =>
    obtain ⟨h, hreads, -⟩ := Reads.exists_and_of_conjunctions hs h₁
    refine ⟨s ++ .keyword .AND :: t₁, t₂, h, g₂, ?_, hreads, h₂⟩
    rw [List.append_assoc, List.cons_append]
  | @or s₁ s₂ f₁ f₂ hs₁ hs₂ =>
    have ht := Reads.or h₁ h₂
    obtain ⟨h, hreads, -⟩ := hs₂.exists_and ht
    refine ⟨s₁, _, f₁, h, ?_, hs₁, hreads⟩
    rw [List.append_assoc, List.cons_append]

end IsDisjunction

/-- After a disjunction, `AND` leaves the first part of it alone. -/
theorem Reads.exists_of_and_right {s t : List Token} {f g h : Formula (Test Nat)}
    (hs : IsDisjunction s) (hf : Reads .disjunction s f) (hg : Reads .disjunction t g)
    (hh : Reads .disjunction (s ++ .keyword .AND :: t) h) (k : Nat) :
    ∃ v, h.value (.byPlace v) k = true ∧ g.value (.byPlace v) (k + f.atoms.length) = false := by
  obtain ⟨s₁, s₂, f₁, f₂, rfl, h₁, h₂⟩ := hs
  obtain ⟨h', hreads, -⟩ := h₂.exists_and hg
  obtain rfl : f = .or f₁ f₂ := hf.unique (.or h₁ h₂)
  obtain rfl : h = .or f₁ h' := by
    apply hh.unique
    rw [List.append_assoc, List.cons_append]
    exact .or h₁ hreads
  -- the first part can be true when all that follows the disjunction is false
  have hle : k + f₁.atoms.length ≤ k + (Formula.or f₁ f₂).atoms.length := by
    simp [Formula.atoms]
  obtain ⟨v, hf₁, hg⟩ := Formula.exists_values hle (f₁.exists_value_eq k true)
    (g.exists_value_eq (k + (Formula.or f₁ f₂).atoms.length) false)
  exact ⟨v, by rw [Formula.value, hf₁, Bool.true_or], hg⟩

/-- Before a disjunction, `AND` leaves the last part of it alone. -/
theorem Reads.exists_of_and_left {s t : List Token} {f h : Formula (Test Nat)}
    (hf : Reads .conjunction s f) (ht : IsDisjunction t)
    (hh : Reads .disjunction (s ++ .keyword .AND :: t) h) (k : Nat) :
    ∃ v, h.value (.byPlace v) k = true ∧ f.value (.byPlace v) k = false := by
  obtain ⟨t₁, t₂, g₁, g₂, rfl, h₁, h₂⟩ := ht
  obtain ⟨h', hreads, hagrees⟩ := Reads.exists_and_of_conjunctions hf h₁
  obtain rfl : h = .or h' g₂ := by
    apply hh.unique
    rw [← List.cons_append, ← List.append_assoc]
    exact .or hreads h₂
  -- the last part can be true when all that precedes the disjunction is false
  have hle : k + f.atoms.length ≤ k + h'.atoms.length := by
    simp [hagrees.atoms, Formula.atoms]
  obtain ⟨v, hf, hg₂⟩ := Formula.exists_values hle (f.exists_value_eq k false)
    (g₂.exists_value_eq (k + h'.atoms.length) true)
  exact ⟨v, by rw [Formula.value, hg₂, Bool.or_true], hf⟩

/-! ## §2 Conditions one after the other -/

namespace Condition

theorem isDisjunction {c : Condition} (hc : c.level = .disjunction) :
    IsDisjunction (withoutBlanks c.tokens) := by
  cases c with
  | test | not | and | group => simp [level] at hc
  | or left right =>
    obtain ⟨f, hf, -⟩ := left.exists_isReading
    obtain ⟨g, hg, -⟩ := right.exists_isReading
    rw [withoutBlanks_tokens_or]
    exact .or hf hg

/-- Where one of several conditions has `OR` on top, so have all of them together. -/
theorem isDisjunction_foldl_and {first : Condition} {others : List Condition}
    (h : IsDisjunction (withoutBlanks first.tokens) ∨ ∃ c ∈ others, c.level = .disjunction) :
    IsDisjunction (withoutBlanks (others.foldl and first).tokens) := by
  induction others generalizing first with
  | nil =>
    rcases h with hfirst | ⟨c, hc, -⟩
    · exact hfirst
    · exact absurd hc List.not_mem_nil
  | cons second others ih =>
    -- `AND` with the next condition keeps the disjunction on top, on whichever side it is
    apply ih
    obtain ⟨f, hf, -⟩ := first.exists_isReading
    obtain ⟨g, hg, -⟩ := second.exists_isReading
    rw [withoutBlanks_tokens_and]
    rcases h with hfirst | ⟨c, hc, hlevel⟩
    · exact .inl (hfirst.and_right hg)
    · rcases List.mem_cons.mp hc with rfl | hc
      · exact .inl (.and_left hf (isDisjunction hlevel))
      · exact .inr ⟨c, hc, hlevel⟩

/-- Several well nested conditions with `AND` between them say that all of them hold if none of
them has `OR` on top. -/
theorem value_reading_foldl_and {first : Condition} {others : List Condition}
    (hnested : ∀ c ∈ first :: others, c.WellNested)
    (h : others = [] ∨ ∀ c ∈ first :: others, c.level ≠ .disjunction)
    {f : Formula (Test Nat)} (hf : IsReading (others.foldl and first).tokens f)
    (v : Assignment (Test Nat)) (k : Nat) :
    f.value v k = (others.foldl and first).formula.value v k := by
  apply (WellNested.agrees _ hf).value
  rcases h with rfl | hlevel
  · exact hnested first List.mem_cons_self
  · exact wellNested_foldl_and fun c hc => ⟨hnested c hc, hlevel c hc⟩

/-- `AND` between two conditions of which the first or only the second is a disjunction does not
say that both of them hold. -/
theorem exists_of_reading_and {first second : Condition} (hsecond : second.WellNested)
    (h : IsDisjunction (withoutBlanks first.tokens) ∨
      first.WellNested ∧ first.level ≠ .disjunction ∧ second.level = .disjunction)
    {f : Formula (Test Nat)} (hf : IsReading (first.and second).tokens f) (k : Nat) :
    ∃ v, f.value (.byPlace v) k = true ∧
      (first.and second).formula.value (.byPlace v) k = false := by
  rw [IsReading, withoutBlanks_tokens_and] at hf
  rcases h with hfirst | ⟨hfirst, hlevel, hlevel'⟩
  · obtain ⟨g, hg, hatoms⟩ := first.exists_isReading
    obtain ⟨h, hh, -⟩ := second.exists_isReading
    obtain ⟨v, hfv, hhv⟩ := Reads.exists_of_and_right hfirst hg hh hf k
    rw [(hsecond.agrees hh).value, hatoms] at hhv
    exact ⟨v, hfv, by rw [formula, Formula.value, hhv, Bool.and_false]⟩
  · obtain ⟨g, hg, hagrees⟩ := hfirst.exists_reads
    obtain ⟨v, hfv, hgv⟩ :=
      Reads.exists_of_and_left (hg.toConjunction hlevel) (isDisjunction hlevel') hf k
    rw [hagrees.value] at hgv
    exact ⟨v, hfv, by rw [formula, Formula.value, hgv, Bool.false_and]⟩

/-- If one of several conditions has `OR` on top, they can be true together although one of them
is false. -/
theorem exists_of_reading_foldl_and {first : Condition} {others : List Condition}
    (hnested : ∀ c ∈ first :: others, c.WellNested) (hothers : others ≠ [])
    {c : Condition} (hc : c ∈ first :: others) (hlevel : c.level = .disjunction)
    {f : Formula (Test Nat)} (hf : IsReading (others.foldl and first).tokens f) (k : Nat) :
    ∃ v, f.value (.byPlace v) k = true ∧
      (others.foldl and first).formula.value (.byPlace v) k = false := by
  -- one `AND` is enough: the last one
  obtain ⟨before, last, rfl⟩ := (List.eq_nil_or_concat others).resolve_left hothers
  rw [List.concat_eq_append, List.foldl_append, List.foldl_cons, List.foldl_nil] at hf ⊢
  have hlast : last.WellNested := hnested last (by simp)
  apply exists_of_reading_and hlast _ hf
  by_cases hdisjunction : IsDisjunction (withoutBlanks (before.foldl and first).tokens)
  · exact .inl hdisjunction
  · have hnone : ∀ c' ∈ first :: before, c'.level ≠ .disjunction := by
      intro c' hc' hlevel'
      apply hdisjunction
      apply isDisjunction_foldl_and
      rcases List.mem_cons.mp hc' with rfl | hc'
      · exact .inl (isDisjunction hlevel')
      · exact .inr ⟨c', hc', hlevel'⟩
    have hbefore : (before.foldl and first).WellNested := by
      apply wellNested_foldl_and
      intro c' hc'
      refine ⟨hnested c' ?_, hnone c' hc'⟩
      rw [List.concat_eq_append, ← List.cons_append]
      exact List.mem_append_left _ hc'
    refine .inr ⟨hbefore, fun h => hdisjunction (isDisjunction h), ?_⟩
    rw [List.concat_eq_append, ← List.cons_append, List.mem_append, List.mem_singleton] at hc
    rcases hc with hc | rfl
    · exact absurd hlevel (hnone c hc)
    · exact hlevel

end Condition

end Sql

/-! ## §3 Several visits -/

/-- Visit expressions one after the other, as long as the visits succeed. -/
def Draft.visitAll (d : Draft) (scope : Scope) : List Expression → Except QueryError Draft
  | [] => .ok d
  | e :: es =>
    match d.visit scope e with
    | (.ok (), d') => d'.visitAll scope es
    | (.error error, _) => .error error

/-- Conditions that are visited one after the other. -/
def Sql.Condition.joined (c : Option Condition) (cs : List Condition) : Option Condition :=
  cs.foldl (fun c c' => Drafting.combine .and c (some c')) c

theorem Sql.Condition.joined_some (c : Condition) (cs : List Condition) :
    joined (some c) cs = some (cs.foldl and c) := by
  induction cs generalizing c with
  | nil => rfl
  | cons c' cs ih => exact ih (c.and c')

/-- The conditions that several visits have added to a draft. -/
structure Adds (scope : Scope) (d : Draft) (es : List Expression) (cs : List Condition)
    (d' : Draft) : Prop where
  condition : d'.condition = Condition.joined d.condition cs
  values : d.params.values <+: d'.params.values
  wellNested : (∀ e ∈ es, e.WellNested) → ∀ c ∈ cs, c.WellNested
  levels : cs.map Condition.level =
    (es.filter Expression.restricts).map fun e => .ofOutermost e.outermost
  meanings : ∀ p : Params, d'.params.values <+: p.values →
    cs.map (Condition.meaning p) = es.filterMap (Expression.formula scope)

theorem Adds.nil (scope : Scope) (d : Draft) : Adds scope d [] [] d where
  condition := rfl
  values := List.prefix_refl _
  wellNested := by simp
  levels := rfl
  meanings := by simp

theorem Adds.cons {scope : Scope} {d d₁ d' : Draft} {e : Expression} {es : List Expression}
    {cs : List Condition} (hvisit : d.visit scope e = (.ok (), d₁))
    (h : Adds scope d₁ es cs d') : ∃ cs', Adds scope d (e :: es) cs' d' := by
  obtain ⟨r, d₂, hsteps, rfl⟩ := Draft.visit_eq_ok.mp hvisit
  have hwrites := hsteps.writes
  have hsome := hwrites.isSome_eq
  have hvalues : d.params.values <+: d₂.params.values :=
    hwrites.values_params ▸ List.prefix_append _ _
  -- an expression without predicate adds no condition
  refine ⟨r.toList ++ cs, ?_, hvalues.trans h.values, ?_, ?_, ?_⟩
  · rw [h.condition, ← hwrites.condition_eq]
    cases r with
    | none => cases d₂.condition <;> rfl
    | some c => rfl
  · intro hes c hc
    rw [List.mem_append, Option.mem_toList] at hc
    rcases hc with hc | hc
    · exact hwrites.wellNested (hes e List.mem_cons_self) c hc
    · exact h.wellNested (fun e' he' => hes e' (List.mem_cons_of_mem _ he')) c hc
  · rw [List.map_append, h.levels]
    cases r with
    | none => simp [← hsome]
    | some c => simp [← hsome, hwrites.level_eq c rfl]
  · intro p hp
    rw [List.map_append, h.meanings p hp, List.filterMap_cons,
      ← hwrites.meaning_eq (h.values.trans hp)]
    cases r <;> rfl

theorem Adds.of_visitAll {scope : Scope} {d d' : Draft} {es : List Expression}
    (h : d.visitAll scope es = .ok d') : ∃ cs, Adds scope d es cs d' := by
  induction es generalizing d with
  | nil =>
    obtain rfl : d = d' := by simpa [Draft.visitAll] using h
    exact ⟨[], .nil scope d⟩
  | cons e es ih =>
    unfold Draft.visitAll at h
    split at h
    · obtain ⟨cs, hadds⟩ := ih h
      exact hadds.cons ‹_›
    · exact absurd h (by simp)

namespace Adds

variable {scope : Scope} {d d' : Draft} {es : List Expression} {cs : List Condition}

theorem length_eq (h : Adds scope d es cs d') :
    cs.length = (es.filter Expression.restricts).length := by
  have hlength := congrArg List.length h.levels
  rwa [List.length_map, List.length_map] at hlength

theorem level_ne_disjunction_iff (h : Adds scope d es cs d') :
    (∀ c ∈ cs, c.level ≠ .disjunction) ↔
      ∀ e ∈ es, e.restricts → e.outermost ≠ some .or := by
  have hmem : (∀ level ∈ cs.map Condition.level, level ≠ .disjunction) ↔
      ∀ level ∈ (es.filter Expression.restricts).map fun e => Level.ofOutermost e.outermost,
        level ≠ .disjunction := by
    -- conditions and expressions correspond one to one
    rw [h.levels]
  simpa only [List.forall_mem_map, List.mem_filter, and_imp, ne_eq,
    Level.ofOutermost_eq_disjunction] using hmem

/-- That all expressions hold is what the conditions say when each is taken by itself. -/
theorem allTrue_eq {first : Condition} {others : List Condition}
    (h : Adds scope d es (first :: others) d') (v : Assignment Predicate) (k : Nat) :
    Formula.allTrue v k (es.filterMap (Expression.formula scope)) =
      (others.foldl Condition.and first).formula.value
        (fun i t => v i (t.map d'.params.valueOf)) k := by
  have hmap : (first :: others).map (Condition.meaning d'.params) =
      ((first :: others).map Condition.formula).map (Formula.map (Test.map d'.params.valueOf)) := by
    simp [Condition.meaning, Function.comp_def]
  rw [← h.meanings d'.params (List.prefix_refl _), hmap, Formula.allTrue_map,
    Condition.formula_foldl_and, Formula.value_foldl_and, List.map_cons]

end Adds

/-! ## §4 What several visits mean -/

/-- The WHERE clause of well nested expressions that are visited one after the other has one
reading. It is true exactly when all expressions that restrict the rows are, if there is only one
of these or none has `OR` on top; and in no other case. -/
theorem Draft.visitAll_means_all_iff {scope : Scope} {es : List Expression} {d : Draft}
    {c : Condition} (hes : ∀ e ∈ es, e.WellNested)
    (hvisits : scope.emptyDraft.visitAll scope es = .ok d) (hc : d.condition = some c) :
    ∃ f, (∀ g, IsReading c.tokens g ↔ g = f) ∧
      ((∀ v, (f.map (Test.map d.params.valueOf)).value v 0 =
          Formula.allTrue v 0 (es.filterMap (Expression.formula scope))) ↔
        (es.filter Expression.restricts).length ≤ 1 ∨
          ∀ e ∈ es, e.restricts → e.outermost ≠ some .or) := by
  obtain ⟨cs, hadds⟩ := Adds.of_visitAll hvisits
  have hnested := hadds.wellNested hes
  have hcondition := hadds.condition
  rw [hc] at hcondition
  -- there is a clause, so that the visits have left at least one condition
  obtain ⟨first, others, rfl⟩ : ∃ first others, cs = first :: others := by
    cases cs with
    | nil => exact absurd hcondition (by simp [Condition.joined, Scope.emptyDraft])
    | cons first others => exact ⟨first, others, rfl⟩
  obtain rfl : c = others.foldl .and first :=
    Option.some.inj (hcondition.trans (Condition.joined_some first others))
  obtain ⟨f, hreading, -⟩ := (others.foldl Condition.and first).exists_isReading
  refine ⟨f, fun g => ⟨fun hg => hg.unique hreading, fun hg => hg ▸ hreading⟩, ?_⟩
  simp only [hadds.allTrue_eq, Formula.value_map]
  rw [← hadds.length_eq, ← hadds.level_ne_disjunction_iff]
  constructor
  · intro hvalue
    -- if one of several conditions has `OR` on top, an assignment tells the two sides apart
    by_cases hothers : others = []
    · simp [hothers]
    · right
      intro c hc hlevel
      obtain ⟨v, htrue, hfalse⟩ :=
        Condition.exists_of_reading_foldl_and hnested hothers hc hlevel hreading 0
      have hboth := hvalue (.byPlace v)
      exact absurd (htrue.symm.trans (hboth.trans hfalse)) (by simp)
  · intro h v
    apply Condition.value_reading_foldl_and hnested _ hreading
    rcases h with hone | hlevel
    · exact .inl (by simpa using hone)
    · exact .inr hlevel

/-- The events of two years, and then only those with samples of one genus. -/
def Expression.fieldworkVisits : List Expression :=
  [.logical .or (.comparison "year" .eq "2019") (.comparison "year" .eq "2020"),
   .comparison "genus" .eq "Conus"]

/-- The genus binds to the later year alone. -/
theorem Draft.visitAll_means_all_iff_fieldwork :
    ∃ d c f, Scope.fieldwork.emptyDraft.visitAll .fieldwork Expression.fieldworkVisits = .ok d ∧
      d.condition = some c ∧ (∀ g, IsReading c.tokens g ↔ g = f) ∧
      ∃ v, (f.map (Test.map d.params.valueOf)).value v 0 ≠
        Formula.allTrue v 0
          (Expression.fieldworkVisits.filterMap (Expression.formula .fieldwork)) := by
  have hnested : ∀ e ∈ Expression.fieldworkVisits, e.WellNested := by
    simp [Expression.fieldworkVisits, Expression.WellNested]
  have hvisits :
      Scope.fieldwork.emptyDraft.visitAll .fieldwork Expression.fieldworkVisits = .ok _ := rfl
  obtain ⟨f, hreading, hvalue⟩ := visitAll_means_all_iff hnested hvisits rfl
  refine ⟨_, _, f, hvisits, rfl, hreading, ?_⟩
  have hnot := mt hvalue.mp (by decide)
  simpa using hnot

end EntityQuery
