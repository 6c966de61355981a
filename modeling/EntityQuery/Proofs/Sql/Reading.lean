import EntityQuery.Proofs.Sql.Grammar

/-!
# How written conditions are read

A condition is written without parentheses but those of its groups. It can always be read
(`Condition.exists_isReading`). What is read agrees with what the condition says if its connectives
are nested in the order in which they bind (`Condition.WellNested.exists_reads`).
-/

namespace EntityQuery.Sql.Condition

/-! ## §1 What a condition says -/

/-- The formula that a condition stands for. -/
def formula : Condition → Formula (Test Nat)
  | test t => .atom t
  | not c => .not c.formula
  | and left right => .and left.formula right.formula
  | or left right => .or left.formula right.formula
  | group c => c.formula

/-- The level of a condition as it is written. -/
def level : Condition → Level
  | test _ | not _ | group _ => .factor
  | and _ _ => .conjunction
  | or _ _ => .disjunction

/-- No operand binds less tightly than the connective above it. -/
def WellNested : Condition → Prop
  | test _ => True
  | not c => c.WellNested ∧ c.level = .factor
  | and left right => left.WellNested ∧ right.WellNested ∧
      left.level ≠ .disjunction ∧ right.level ≠ .disjunction
  | or left right => left.WellNested ∧ right.WellNested
  | group c => c.WellNested

/-! ## §2 Reading -/

private theorem withoutBlanks_tokens_not (c : Condition) :
    withoutBlanks c.not.tokens = .keyword .NOT :: withoutBlanks c.tokens := by
  simp [tokens, withoutBlanks_cons]

theorem withoutBlanks_tokens_and (left right : Condition) :
    withoutBlanks (left.and right).tokens =
      withoutBlanks left.tokens ++ .keyword .AND :: withoutBlanks right.tokens := by
  simp [tokens, withoutBlanks_cons]

theorem withoutBlanks_tokens_or (left right : Condition) :
    withoutBlanks (left.or right).tokens =
      withoutBlanks left.tokens ++ .keyword .OR :: withoutBlanks right.tokens := by
  simp [tokens, withoutBlanks_cons]

private theorem withoutBlanks_tokens_group (c : Condition) :
    withoutBlanks c.group.tokens = parenthesized (withoutBlanks c.tokens) := by
  simp [tokens]

/-- Every written condition is a complete boolean expression, whose atoms are its tests. -/
theorem exists_isReading (c : Condition) :
    ∃ f, IsReading c.tokens f ∧ f.atoms = c.formula.atoms := by
  unfold IsReading
  induction c with
  | test t => exact ⟨_, (Reads.test t).toDisjunction, rfl⟩
  | not c ih =>
    obtain ⟨f, hreads, hatoms⟩ := ih
    obtain ⟨g, hnot, hnotAtoms⟩ := hreads.exists_not
    rw [withoutBlanks_tokens_not]
    exact ⟨g, hnot, hnotAtoms.trans hatoms⟩
  | and left right ihl ihr =>
    obtain ⟨f, hf, hfAtoms⟩ := ihl
    obtain ⟨g, hg, hgAtoms⟩ := ihr
    -- the reading may differ from what the condition says, but not in its atoms
    obtain ⟨h, hand, hatoms⟩ := hf.exists_and hg
    rw [withoutBlanks_tokens_and]
    exact ⟨h, hand, by simp [hatoms, hfAtoms, hgAtoms, formula, Formula.atoms]⟩
  | or left right ihl ihr =>
    obtain ⟨f, hf, hfAtoms⟩ := ihl
    obtain ⟨g, hg, hgAtoms⟩ := ihr
    obtain ⟨h, hor, hagrees⟩ := hf.exists_or hg
    rw [withoutBlanks_tokens_or]
    exact ⟨h, hor, by simp [hagrees.atoms, hfAtoms, hgAtoms, formula, Formula.atoms]⟩
  | group c ih =>
    obtain ⟨f, hreads, hatoms⟩ := ih
    rw [withoutBlanks_tokens_group]
    exact ⟨f, (Reads.group hreads).toDisjunction, hatoms⟩

/-- A well nested condition is read at its level, and as what it says. -/
theorem WellNested.exists_reads {c : Condition} (hc : c.WellNested) :
    ∃ f, Reads c.level (withoutBlanks c.tokens) f ∧ f.Agrees c.formula := by
  induction c with
  | test t => exact ⟨_, .test t, .refl _⟩
  | not c ih =>
    obtain ⟨hc, hlevel⟩ := hc
    obtain ⟨f, hreads, hagrees⟩ := ih hc
    rw [withoutBlanks_tokens_not]
    -- the operand is one factor, so that `NOT` takes all of it
    exact ⟨_, .not (hlevel ▸ hreads), hagrees.not⟩
  | and left right ihl ihr =>
    obtain ⟨hl, hr, hllevel, hrlevel⟩ := hc
    obtain ⟨f, hf, hfAgrees⟩ := ihl hl
    obtain ⟨g, hg, hgAgrees⟩ := ihr hr
    -- neither side has an `OR` on top that would bind less tightly than this `AND`
    obtain ⟨h, hand, hagrees⟩ :=
      (hf.toConjunction hllevel).exists_and_of_conjunctions (hg.toConjunction hrlevel)
    rw [withoutBlanks_tokens_and]
    exact ⟨h, hand, hagrees.trans (hfAgrees.and hgAgrees)⟩
  | or left right ihl ihr =>
    obtain ⟨hl, hr⟩ := hc
    obtain ⟨f, hf, hfAgrees⟩ := ihl hl
    obtain ⟨g, hg, hgAgrees⟩ := ihr hr
    obtain ⟨h, hor, hagrees⟩ := hf.toDisjunction.exists_or hg.toDisjunction
    rw [withoutBlanks_tokens_or]
    exact ⟨h, hor, hagrees.trans (hfAgrees.or hgAgrees)⟩
  | group c ih =>
    obtain ⟨f, hreads, hagrees⟩ := ih hc
    rw [withoutBlanks_tokens_group]
    exact ⟨f, .group hreads.toDisjunction, hagrees⟩

/-- A well nested condition is read as what it says. -/
theorem WellNested.agrees {c : Condition} (hc : c.WellNested) {f : Formula (Test Nat)}
    (hf : IsReading c.tokens f) : f.Agrees c.formula := by
  obtain ⟨g, hreads, hagrees⟩ := hc.exists_reads
  rwa [hf.unique hreads.toDisjunction]

/-! ## §3 Tests that all have to hold -/

theorem formula_foldl_and (first : Condition) (others : List Condition) :
    (others.foldl and first).formula = (others.map formula).foldl .and first.formula := by
  induction others generalizing first <;> simp_all [formula]

theorem formula_allOf (first : Condition) (others : List Condition) :
    (allOf first others).formula = (others.map formula).foldl .and first.formula := by
  cases others <;> simp [allOf, formula, formula_foldl_and]

theorem level_allOf_test (t : Test Nat) (others : List Condition) :
    (allOf (.test t) others).level = .factor := by
  cases others <;> rfl

/-- Conditions that bind more tightly than `OR` can stand under `AND`. -/
theorem wellNested_foldl_and {first : Condition} {others : List Condition}
    (h : ∀ c ∈ first :: others, c.WellNested ∧ c.level ≠ .disjunction) :
    (others.foldl and first).WellNested := by
  induction others generalizing first with
  | nil => exact (h first List.mem_cons_self).1
  | cons second others ih =>
    have hfirst := h first List.mem_cons_self
    have hsecond := h second (List.mem_cons_of_mem _ List.mem_cons_self)
    -- the first two conditions become one, which has `AND` on top
    apply ih
    intro c hc
    rcases List.mem_cons.mp hc with rfl | hc
    · exact ⟨⟨hfirst.1, hsecond.1, hfirst.2, hsecond.2⟩, by simp [level]⟩
    · exact h c (List.mem_cons_of_mem _ (List.mem_cons_of_mem _ hc))

theorem wellNested_allOf_tests (t : Test Nat) (ts : List (Test Nat)) :
    (allOf (.test t) (ts.map .test)).WellNested := by
  cases ts with
  | nil => trivial
  | cons u us =>
    apply wellNested_foldl_and
    intro c hc
    rw [← List.map_cons] at hc
    obtain ⟨t', -, rfl⟩ := List.mem_map.mp hc
    exact ⟨trivial, by simp [level]⟩

end EntityQuery.Sql.Condition
