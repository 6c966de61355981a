import EntityQuery.Proofs.Formula
import EntityQuery.Sql.Condition

/-!
# The grammar of conditions

How SQL reads a condition that is written out: `NOT` binds more tightly than `AND` and `AND` more
tightly than `OR`, whatever the condition was meant to say. The atoms of the grammar are tests.
Blanks between tokens have no meaning and are left out first.

A fragment has at most one reading (`Reads.unique`). `AND` and `OR` are nested to the right, which
is as good as any other way, since both are associative.
-/

namespace EntityQuery.Sql

/-! ## §1 Readings -/

/-- The tokens that have a meaning. -/
def withoutBlanks (tokens : List Token) : List Token :=
  tokens.filter (· ≠ .space)

/-- How tightly the connectives of a fragment bind. -/
inductive Level
  /-- No connective stands outside of parentheses but `NOT`. -/
  | factor
  /-- Factors with `AND` between them. -/
  | conjunction
  /-- Conjunctions with `OR` between them. -/
  | disjunction
  deriving DecidableEq, Repr

/-- A fragment of a level and the formula that it is read as. -/
inductive Reads : Level → List Token → Formula (Test Nat) → Prop
  | test (t : Test Nat) : Reads .factor (withoutBlanks t.tokens) (.atom t)
  | group {s f} (h : Reads .disjunction s f) : Reads .factor (parenthesized s) f
  | not {s f} (h : Reads .factor s f) : Reads .factor (.keyword .NOT :: s) (.not f)
  | factor {s f} (h : Reads .factor s f) : Reads .conjunction s f
  | and {s t f g} (hs : Reads .factor s f) (ht : Reads .conjunction t g) :
      Reads .conjunction (s ++ .keyword .AND :: t) (.and f g)
  | conjunction {s f} (h : Reads .conjunction s f) : Reads .disjunction s f
  | or {s t f g} (hs : Reads .conjunction s f) (ht : Reads .disjunction t g) :
      Reads .disjunction (s ++ .keyword .OR :: t) (.or f g)

/-- Some tokens are a complete boolean expression that is read as a formula. -/
def IsReading (tokens : List Token) (f : Formula (Test Nat)) : Prop :=
  Reads .disjunction (withoutBlanks tokens) f

@[simp] theorem withoutBlanks_nil : withoutBlanks [] = [] :=
  rfl

@[simp] theorem withoutBlanks_space (s : List Token) :
    withoutBlanks (.space :: s) = withoutBlanks s := by
  simp [withoutBlanks]

theorem withoutBlanks_cons {t : Token} (h : t ≠ .space) (s : List Token) :
    withoutBlanks (t :: s) = t :: withoutBlanks s := by
  simp [withoutBlanks, h]

@[simp] theorem withoutBlanks_append (s t : List Token) :
    withoutBlanks (s ++ t) = withoutBlanks s ++ withoutBlanks t := by
  simp [withoutBlanks]

@[simp] theorem withoutBlanks_parenthesized (s : List Token) :
    withoutBlanks (parenthesized s) = parenthesized (withoutBlanks s) := by
  simp [parenthesized, withoutBlanks]

/-! ## §2 Tests are read back

`readTest` undoes writing: it finds the test that some tokens start with. It looks only at what
tells tests apart. -/

/-- The placeholders that tokens start with, with commas between them, and what follows. -/
private def readPlaceholders : List Token → List Nat × List Token
  | .placeholder n :: .symbol .comma :: rest =>
    let (numbers, rest) := readPlaceholders rest
    (n :: numbers, rest)
  | .placeholder n :: rest => ([n], rest)
  | rest => ([], rest)

/-- The operator that a symbol stands for. -/
private def operatorOfSymbol : Symbol → ComparisonOperator
  | .ne => .ne
  | .gt => .gt
  | .ge => .ge
  | .lt => .lt
  | .le => .le
  | _ => .eq

/-- The access to a column of a table, perhaps to a key of it. -/
private def accessOf (table column : String) : Option String → Access
  | some key => .property table column key
  | none =>
    if column = "local_identifier" then .localIdentifier table else .parentIdentifier table

/-- The column that tokens start with, perhaps with a key, and what follows. -/
private def readColumn : List Token → Option (String × String × Option String × List Token)
  | .name table :: .symbol .dot :: .name c :: .symbol .jsonText :: .literal key :: rest =>
    some (table, c, some key, rest)
  | .name table :: .symbol .dot :: .name c :: rest => some (table, c, none, rest)
  | _ => none

/-- The test of a column that follows the column. -/
private def readColumnTest (table column : String) (key : Option String) :
    List Token → Option (Test Nat × List Token)
  | .symbol .textMatch :: .function _ :: .symbol .openParen :: .placeholder n ::
      .symbol .closeParen :: rest => some (.rowMatches table n, rest)
  | .symbol .hasKey :: .placeholder n :: rest => some (.hasKey table column n, rest)
  | .symbol .hasAllKeys :: .keyword .ARRAY :: .symbol .openBracket :: rest =>
    let (numbers, rest) := readPlaceholders rest
    some (.hasKeys table column numbers, rest.tail)
  | .keyword .IN :: .symbol .openParen :: rest =>
    let (numbers, rest) := readPlaceholders rest
    some (.isOneOf (if column = "expedition_code" then .code else .projectId) numbers, rest.tail)
  | .symbol .eq :: .keyword .TRUE :: rest => some (.isPublic, rest)
  | .keyword .ILIKE :: .placeholder n :: rest => some (.like (accessOf table column key) n, rest)
  | .symbol s :: .placeholder n :: rest =>
    if key = none ∧ column = "expedition_code" then some (.isValue .code n, rest)
    else if key = none ∧ column = "project_id" then some (.isValue .projectId n, rest)
    else some (.compare (accessOf table column key) none (operatorOfSymbol s) n, rest)
  | _ => none

/-- The test of a function of a column that follows its closing parenthesis. -/
private def readCallTest (function : String) (access : Access) :
    List Token → Option (Test Nat × List Token)
  | .symbol .closeParen :: .symbol .textMatch :: .function _ :: .symbol .openParen ::
      .placeholder n :: .symbol .closeParen :: rest => some (.columnMatches access n, rest)
  | .symbol .closeParen :: .symbol s :: .placeholder n :: .symbol .cast :: .typeName type :: rest =>
    some (.compare access (some ⟨function, type⟩) (operatorOfSymbol s) n, rest)
  | _ => none

/-- The test that tokens start with, and what follows. -/
private def readTest : List Token → Option (Test Nat × List Token)
  | .keyword .TRUE :: rest => some (.always, rest)
  | .function f :: .symbol .openParen :: rest =>
    (readColumn rest).bind fun (table, c, key, rest) => readCallTest f (accessOf table c key) rest
  | tokens =>
    (readColumn tokens).bind fun (table, c, key, rest) => readColumnTest table c key rest

private theorem commaList_cons_cons (t u : Token) (tokens : List Token) :
    commaList (t :: u :: tokens) = t :: .symbol .comma :: .space :: commaList (u :: tokens) :=
  rfl

private theorem readPlaceholders_commaList (numbers : List Nat) {s : Symbol} (hs : s ≠ .comma)
    (rest : List Token) :
    readPlaceholders (withoutBlanks (commaList (numbers.map .placeholder)) ++ .symbol s :: rest) =
      (numbers, .symbol s :: rest) := by
  induction numbers with
  | nil => simp [commaList, joinedByComma, separated, readPlaceholders]
  | cons n others ih =>
    cases others with
    | nil =>
      simp only [commaList, joinedByComma, separated, withoutBlanks, List.map_cons, List.map_nil]
      cases s <;> first | contradiction | simp [readPlaceholders]
    | cons m others =>
      simp only [List.map_cons, commaList_cons_cons, withoutBlanks_cons, withoutBlanks_space,
        ne_eq, reduceCtorEq, not_false_eq_true, List.cons_append, readPlaceholders] at ih ⊢
      rw [ih]

/-- Every test can be read back from its tokens, whatever follows them. -/
private theorem readTest_tokens (t : Test Nat) (rest : List Token) :
    readTest (withoutBlanks t.tokens ++ rest) = some (t, rest) := by
  -- what follows is never looked at: the tokens of a test end where it ends
  cases t with
  | compare column cast operator value =>
    cases cast <;> cases column <;> cases operator <;>
      simp [Test.tokens, Access.tokens, column, spaced, operatorSymbol, call, withoutBlanks,
        parenthesized, readTest, readColumn, readColumnTest, readCallTest, accessOf,
        operatorOfSymbol]
  | like column pattern =>
    cases column <;>
      simp [Test.tokens, Access.tokens, column, withoutBlanks, readTest, readColumn,
        readColumnTest, accessOf]
  | columnMatches column search =>
    cases column <;>
      simp [Test.tokens, Access.tokens, column, spaced, call, searchOf, withoutBlanks,
        parenthesized, readTest, readColumn, readCallTest, accessOf]
  | hasKeys table jsonColumn keys =>
    simp [Test.tokens, column, spaced, withoutBlanks_cons, readTest, readColumn, readColumnTest,
      readPlaceholders_commaList]
  | isOneOf c values =>
    cases c <;>
      simp [Test.tokens, column, ExpeditionColumn.name, parenthesized, withoutBlanks_cons,
        readTest, readColumn, readColumnTest, readPlaceholders_commaList]
  | isValue c value =>
    cases c <;>
      simp [Test.tokens, column, spaced, ExpeditionColumn.name, withoutBlanks, readTest,
        readColumn, readColumnTest]
  | rowMatches | hasKey | isPublic | always =>
    simp [Test.tokens, column, spaced, call, searchOf, parenthesized, withoutBlanks, readTest,
      readColumn, readColumnTest]

/-- The first test of some tokens is determined by them. -/
private theorem eq_of_tokens_append_eq {t t' : Test Nat} {r r' : List Token}
    (h : withoutBlanks t.tokens ++ r = withoutBlanks t'.tokens ++ r') : t = t' ∧ r = r' := by
  have hread : some (t, r) = some (t', r') := by
    rw [← readTest_tokens t r, ← readTest_tokens t' r', h]
  simpa using hread

/-- No test starts like a group or a negation. -/
private theorem head_ne_of_test (t : Test Nat) {s r : List Token} {token : Token}
    (htoken : token = .symbol .openParen ∨ token = .keyword .NOT) :
    withoutBlanks t.tokens ++ r ≠ token :: s := by
  intro h
  have hread := readTest_tokens t r
  rw [h] at hread
  obtain rfl | rfl := htoken <;> simp [readTest, readColumn] at hread

/-- What is read as a formula is not empty. -/
theorem Reads.ne_nil {level : Level} {tokens : List Token} {f : Formula (Test Nat)}
    (h : Reads level tokens f) : tokens ≠ [] := by
  induction h with
  | test t =>
    intro hnil
    have hread := readTest_tokens t []
    rw [hnil] at hread
    simp [readTest, readColumn] at hread
  | group | not => simp [parenthesized]
  | factor _ ih | conjunction _ ih => exact ih
  | and | or => simp

/-! ## §3 Unique reading -/

/-- Where a fragment of a level comes to an end: no connective follows that would go on with it. -/
def Level.EndsAt : Level → List Token → Prop
  | .factor, _ => True
  | .conjunction, rest => rest.head? ≠ some (.keyword .AND)
  | .disjunction, rest => rest.head? ≠ some (.keyword .AND) ∧ rest.head? ≠ some (.keyword .OR)

/-- A fragment at the start of some tokens is determined by them, and so is its reading. -/
theorem Reads.eq_of_append_eq {level : Level} {s t r r' : List Token} {f g : Formula (Test Nat)}
    (hs : Reads level s f) (ht : Reads level t g) (h : s ++ r = t ++ r')
    (hr : level.EndsAt r) (hr' : level.EndsAt r') : s = t ∧ f = g := by
  -- on the first reading; the second one can end in as many ways as its level allows
  induction hs generalizing t g r r' with
  | test a =>
    cases ht with
    | test b =>
      obtain ⟨rfl, -⟩ := eq_of_tokens_append_eq h
      exact ⟨rfl, rfl⟩
    | group _ => exact absurd h (head_ne_of_test a (.inl rfl))
    | not _ => exact absurd h (head_ne_of_test a (.inr rfl))
  | group hs ih =>
    cases ht with
    | test b => exact absurd h.symm (head_ne_of_test b (.inl rfl))
    | group ht =>
      simp only [parenthesized, List.cons_append, List.append_assoc, List.cons.injEq] at h
      -- the closing parenthesis ends both
      obtain ⟨rfl, rfl⟩ := ih ht h.2 (by simp [Level.EndsAt]) (by simp [Level.EndsAt])
      exact ⟨rfl, rfl⟩
    | not _ => simp [parenthesized] at h
  | not hs ih =>
    cases ht with
    | test b => exact absurd h.symm (head_ne_of_test b (.inr rfl))
    | group _ => simp [parenthesized] at h
    | not ht =>
      obtain ⟨rfl, rfl⟩ := ih ht (List.cons.inj h).2 trivial trivial
      exact ⟨rfl, rfl⟩
  | factor hs ih =>
    cases ht with
    | factor ht => exact ih ht h trivial trivial
    | and ht _ =>
      rw [List.append_assoc] at h
      obtain ⟨rfl, -⟩ := ih ht h trivial trivial
      simp only [List.append_cancel_left_eq] at h
      -- the first fragment would go on with this `AND`
      exact absurd rfl (h ▸ hr)
  | and hs₁ hs₂ ih₁ ih₂ =>
    rw [List.append_assoc] at h
    cases ht with
    | factor ht =>
      obtain ⟨rfl, -⟩ := ih₁ ht h trivial trivial
      simp only [List.append_cancel_left_eq] at h
      exact absurd rfl (h ▸ hr')
    | and ht₁ ht₂ =>
      rw [List.append_assoc] at h
      obtain ⟨rfl, rfl⟩ := ih₁ ht₁ h trivial trivial
      simp only [List.append_cancel_left_eq, List.cons_append, List.cons.injEq, true_and] at h
      obtain ⟨rfl, rfl⟩ := ih₂ ht₂ h hr hr'
      exact ⟨rfl, rfl⟩
  | conjunction hs ih =>
    cases ht with
    | conjunction ht => exact ih ht h hr.1 hr'.1
    | or ht _ =>
      rw [List.append_assoc] at h
      obtain ⟨rfl, -⟩ := ih ht h hr.1 (by simp [Level.EndsAt])
      simp only [List.append_cancel_left_eq] at h
      -- the first fragment would go on with this `OR`
      exact absurd rfl (h ▸ hr.2)
  | or hs₁ hs₂ ih₁ ih₂ =>
    rw [List.append_assoc] at h
    cases ht with
    | conjunction ht =>
      obtain ⟨rfl, -⟩ := ih₁ ht h (by simp [Level.EndsAt]) hr'.1
      simp only [List.append_cancel_left_eq] at h
      exact absurd rfl (h ▸ hr'.2)
    | or ht₁ ht₂ =>
      rw [List.append_assoc] at h
      obtain ⟨rfl, rfl⟩ := ih₁ ht₁ h (by simp [Level.EndsAt]) (by simp [Level.EndsAt])
      simp only [List.append_cancel_left_eq, List.cons_append, List.cons.injEq, true_and] at h
      obtain ⟨rfl, rfl⟩ := ih₂ ht₂ h hr hr'
      exact ⟨rfl, rfl⟩

/-- A fragment has at most one reading at a level. -/
theorem Reads.unique {level : Level} {s : List Token} {f g : Formula (Test Nat)}
    (hf : Reads level s f) (hg : Reads level s g) : f = g := by
  have hend : level.EndsAt [] := by cases level <;> simp [Level.EndsAt]
  exact (hf.eq_of_append_eq hg rfl hend hend).2

/-! ## §4 Fragments put together -/

namespace Reads

variable {level : Level} {s t : List Token} {f g : Formula (Test Nat)}

theorem toConjunction (h : Reads level s f) (hlevel : level ≠ .disjunction) :
    Reads .conjunction s f := by
  cases level with
  | factor => exact .factor h
  | conjunction => exact h
  | disjunction => exact absurd rfl hlevel

theorem toDisjunction (h : Reads level s f) : Reads .disjunction s f := by
  by_cases hlevel : level = .disjunction
  · exact hlevel ▸ h
  · exact .conjunction (h.toConjunction hlevel)

/-- `AND` between conjunctions means what it says. -/
theorem exists_and_of_conjunctions :
    ∀ {s t f g}, Reads .conjunction s f → Reads .conjunction t g →
      ∃ h, Reads .conjunction (s ++ .keyword .AND :: t) h ∧ h.Agrees (f.and g)
  | _, _, _, _, .factor hs, ht => ⟨_, .and hs ht, .refl _⟩
  | _, _, _, _, .and hs₁ hs₂, ht => by
    -- put the right operand in place of the end of the chain
    obtain ⟨h, hreads, hagrees⟩ := exists_and_of_conjunctions hs₂ ht
    have hand := Reads.and hs₁ hreads
    rw [← List.cons_append, ← List.append_assoc] at hand
    exact ⟨_, hand, (Formula.Agrees.and (.refl _) hagrees).trans (.and_assoc ..)⟩

/-- `OR` means what it says between any fragments. -/
theorem exists_or :
    ∀ {s t f g}, Reads .disjunction s f → Reads .disjunction t g →
      ∃ h, Reads .disjunction (s ++ .keyword .OR :: t) h ∧ h.Agrees (f.or g)
  | _, _, _, _, .conjunction hs, ht => ⟨_, .or hs ht, .refl _⟩
  | _, _, _, _, .or hs₁ hs₂, ht => by
    obtain ⟨h, hreads, hagrees⟩ := exists_or hs₂ ht
    have hor := Reads.or hs₁ hreads
    rw [← List.cons_append, ← List.append_assoc] at hor
    exact ⟨_, hor, (Formula.Agrees.or (.refl _) hagrees).trans (.or_assoc ..)⟩

/-- `NOT` in front of any fragment can be read, though it may bind only to the first factor. -/
theorem exists_not (h : Reads level s f) :
    ∃ h, Reads level (.keyword .NOT :: s) h ∧ h.atoms = f.atoms := by
  -- `NOT` goes to the first factor, down the left side of the tree
  induction h with
  | test t => exact ⟨_, .not (.test t), rfl⟩
  | group h _ => exact ⟨_, .not (.group h), rfl⟩
  | not h _ => exact ⟨_, .not (.not h), rfl⟩
  | factor _ ih =>
    obtain ⟨h, hreads, hatoms⟩ := ih
    exact ⟨h, .factor hreads, hatoms⟩
  | and _ ht ih _ =>
    obtain ⟨h, hreads, hatoms⟩ := ih
    exact ⟨_, .and hreads ht, by simp [Formula.atoms, hatoms]⟩
  | conjunction _ ih =>
    obtain ⟨h, hreads, hatoms⟩ := ih
    exact ⟨h, .conjunction hreads, hatoms⟩
  | or _ ht ih _ =>
    obtain ⟨h, hreads, hatoms⟩ := ih
    exact ⟨_, .or hreads ht, by simp [Formula.atoms, hatoms]⟩

/-- `AND` between any fragments can be read, though it may bind only to the last conjunction before
it and the first one after it. -/
theorem exists_and :
    ∀ {s t f g}, Reads .disjunction s f → Reads .disjunction t g →
      ∃ h, Reads .disjunction (s ++ .keyword .AND :: t) h ∧ h.atoms = f.atoms ++ g.atoms
  | _, _, _, _, .conjunction hs, .conjunction ht => by
    obtain ⟨h, hreads, hagrees⟩ := exists_and_of_conjunctions hs ht
    exact ⟨h, .conjunction hreads, hagrees.atoms⟩
  | _, _, _, _, .conjunction hs, .or ht₁ ht₂ => by
    -- `AND` takes the first part of the disjunction away from the rest of it
    obtain ⟨h, hreads, hagrees⟩ := exists_and_of_conjunctions hs ht₁
    have hor := Reads.or hreads ht₂
    rw [List.append_assoc, List.cons_append] at hor
    exact ⟨_, hor, by simp [Formula.atoms, hagrees.atoms]⟩
  | _, _, _, _, .or hs₁ hs₂, ht => by
    -- `AND` goes to the last part of the disjunction
    obtain ⟨h, hreads, hatoms⟩ := exists_and hs₂ ht
    have hor := Reads.or hs₁ hreads
    rw [← List.cons_append, ← List.append_assoc] at hor
    exact ⟨_, hor, by simp [Formula.atoms, hatoms]⟩

end Reads

end EntityQuery.Sql
