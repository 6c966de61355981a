import Mathlib.Logic.Function.Basic
import EntityQuery.Proofs.Drafting
import EntityQuery.Proofs.Sql.Tables

/-!
# The rows of a statement

What a database returns for a statement: the rows of the table that it starts from are extended by
one join after the other, and then those are kept for which the WHERE clause is true. An inner join
drops a row that finds no partner; a left join keeps it, and then has no row of its own. Columns
without a row, like those without a value, are NULL: no equation holds of them, and a test of them
is unknown.

What a test says about a row is left open. Only how tests are connected is part of SQL here.

The rows are found by going through the joins in order. If all names are different and each join
reads only tables that are there, they can be told without any order: each join has to be settled
(`Query.mem_rows_iff`).
-/

namespace EntityQuery

namespace Sql

/-! ## §1 Databases -/

/-- A row of a table: the values of its columns by their names. -/
abbrev Row := String → Option String

/-- The rows of each table, by the database schema that it lies in and its name. -/
abbrev Database := Option String → String → List Row

def Database.rowsOf (db : Database) (t : TableRef) : List Row :=
  db t.schema t.table

/-- The rows that stand under the names of a statement's tables. There is none for a table that is
not joined, or not yet, and none where a left join has found no partner. -/
abbrev Joined := String → Option Row

/-! ## §2 Join conditions -/

inductive Operand
  | column (table name : String)
  | literal (s : String)
  deriving DecidableEq, Repr

/-- An equation between a column and another column or a text. -/
structure Equation where
  table : String
  name : String
  right : Operand
  deriving DecidableEq, Repr

/-- The equations that a join condition consists of, with `AND` between them. -/
def equations? : List Token → Option (List Equation)
  | [.name t, .symbol .dot, .name c, .space, .symbol .eq, .space, .literal s] =>
    some [⟨t, c, .literal s⟩]
  | [.name t, .symbol .dot, .name c, .space, .symbol .eq, .space,
      .name t', .symbol .dot, .name c'] => some [⟨t, c, .column t' c'⟩]
  | .name t :: .symbol .dot :: .name c :: .space :: .symbol .eq :: .space ::
      .name t' :: .symbol .dot :: .name c' :: .space :: .keyword .AND :: .space :: rest =>
    (equations? rest).map (⟨t, c, .column t' c'⟩ :: ·)
  | _ => none

/-- The value of an operand, if it has one. -/
def Operand.value? (ρ : Joined) : Operand → Option String
  | column table name => (ρ table).bind (· name)
  | literal s => some s

/-- Both sides of an equation have a value, and it is the same. -/
def Equation.holds (ρ : Joined) (eq : Equation) : Bool :=
  match (Operand.column eq.table eq.name).value? ρ, eq.right.value? ρ with
  | some left, some right => left == right
  | _, _ => false

/-- The rows that stand under the names of a join condition are partners. -/
def Join.isPartner (j : Join) (ρ : Joined) : Bool :=
  (equations? j.on).any fun eqs => eqs.all (·.holds ρ)

/-! ## §3 Joining -/

/-- A joined row with another one under the name of a join. -/
def Join.set (j : Join) (ρ : Joined) (r : Option Row) : Joined :=
  Function.update ρ j.referenceName r

/-- What a joined row is extended to by a join. -/
def Join.extend (db : Database) (j : Join) (ρ : Joined) : List Joined :=
  match j.type, (db.rowsOf j.table).filter fun r => j.isPartner (j.set ρ (some r)) with
  | .left, [] => [j.set ρ none]
  | _, partners => partners.map fun r => j.set ρ (some r)

/-- What a joined row is extended to by joins, one after the other. -/
def joinAll (db : Database) : List Join → Joined → List Joined
  | [], ρ => [ρ]
  | j :: joins, ρ => (j.extend db ρ).flatMap (joinAll db joins)

/-- The joined rows of a statement before they are filtered. -/
def Query.rows (db : Database) (q : Query) : List Joined :=
  q.source.toList.flatMap fun t => (db.rowsOf t).flatMap fun r =>
    joinAll db q.joins (Function.update (fun _ => none) t.referenceName (some r))

end Sql

/-! ## §4 The WHERE clause -/

namespace Formula

variable {α : Type}

/-- The conjunction of two truth values, either of which may be unknown. -/
def truthAnd : Option Bool → Option Bool → Option Bool
  | some false, _ | _, some false => some false
  | some true, some true => some true
  | _, _ => none

/-- The disjunction of two truth values, either of which may be unknown. -/
def truthOr : Option Bool → Option Bool → Option Bool
  | some true, _ | _, some true => some true
  | some false, some false => some false
  | _, _ => none

/-- The truth value of a formula if those of its atoms may be unknown. -/
def truth (v : α → Option Bool) : Formula α → Option Bool
  | atom a => v a
  | not f => (f.truth v).map (!·)
  | and f g => truthAnd (f.truth v) (g.truth v)
  | or f g => truthOr (f.truth v) (g.truth v)

theorem truth_congr {v w : α → Option Bool} {f : Formula α} (h : ∀ a ∈ f.atoms, v a = w a) :
    f.truth v = f.truth w := by
  -- the truth of a formula is put together from that of its atoms and nothing else
  induction f with
  | atom a => exact h a List.mem_cons_self
  | not f ih => exact congrArg (Option.map (!·)) (ih h)
  | and f g ihf ihg | or f g ihf ihg =>
    have hf := ihf fun a ha => h a (List.mem_append_left _ ha)
    have hg := ihg fun a ha => h a (List.mem_append_right _ ha)
    rw [truth, truth, hf, hg]

end Formula

namespace Sql

/-- The truth value of a test: unknown if there is no row in its table. -/
def Test.truth (meaning : Predicate → Row → Option Bool) (p : Params) (ρ : Joined)
    (t : Test Nat) : Option Bool :=
  match t.table? with
  | some table => (ρ table).bind (meaning (t.map p.valueOf))
  | none => some true

namespace Query

/-- The WHERE clause of a statement is true, or there is none. -/
def Accepts (q : Query) (meaning : Predicate → Row → Option Bool) (p : Params) (ρ : Joined) :
    Prop :=
  q.filter = [] ∨ ∃ f, IsReading q.filter f ∧ f.truth (Test.truth meaning p ρ) = some true

/-- A row of the table that a statement starts from is among those that the statement returns. A
statement with two tables of one name is not accepted by a database and returns nothing. -/
def Returns (q : Query) (db : Database) (meaning : Predicate → Row → Option Bool) (p : Params)
    (r : Row) : Prop :=
  q.introduced.Nodup ∧ ∃ ρ ∈ q.rows db, q.Accepts meaning p ρ ∧ ∃ name ∈ q.start, ρ name = some r

end Query

/-! ## §5 Joins without order -/

section Locality

variable {ρ ρ' : Joined} {j : Join}

theorem Equation.holds_congr {eq : Equation} (hleft : ρ eq.table = ρ' eq.table)
    (hright : ∀ table name, eq.right = .column table name → ρ table = ρ' table) :
    eq.holds ρ = eq.holds ρ' := by
  have hvalue : eq.right.value? ρ = eq.right.value? ρ' := by
    cases h : eq.right with
    | column table name => rw [Operand.value?, Operand.value?, hright table name h]
    | literal s => rfl
  rw [holds, holds, hvalue, Operand.value?, Operand.value?, hleft]

/-- Equations are read from the tables of the condition. -/
theorem all_holds_congr {tokens : List Token} (h : ∀ table ∈ tables tokens, ρ table = ρ' table) :
    ((equations? tokens).any fun eqs => eqs.all (·.holds ρ)) =
      (equations? tokens).any fun eqs => eqs.all (·.holds ρ') := by
  have hcolumns : ∀ {t t' : String} (c c' : String), ρ t = ρ' t → ρ t' = ρ' t' →
      Equation.holds ρ ⟨t, c, .column t' c'⟩ = Equation.holds ρ' ⟨t, c, .column t' c'⟩ := by
    intro t t' c c' hleft hright
    apply Equation.holds_congr hleft
    rintro _ _ ⟨⟩
    exact hright
  -- along the equations as they are read; the last case is that of tokens which are none
  induction tokens using equations?.induct with
  | case1 t c s =>
    have hleft : Equation.holds ρ ⟨t, c, .literal s⟩ = Equation.holds ρ' ⟨t, c, .literal s⟩ :=
      Equation.holds_congr (h t (by simp [tables])) (by simp)
    simp [equations?, hleft]
  | case2 t c t' c' =>
    have hboth := hcolumns c c' (h t (by simp [tables])) (h t' (by simp [tables]))
    simp [equations?, hboth]
  | case3 t c t' c' rest ih =>
    have hboth := hcolumns c c' (h t (by simp [tables])) (h t' (by simp [tables]))
    have hrest := ih fun table htable => h table (by simp [tables, htable])
    rw [equations?]
    cases hread : equations? rest with
    | none => rfl
    | some eqs =>
      simp only [hread, Option.any_some] at hrest
      simp only [Option.map_some, Option.any_some, List.all_cons, hboth, hrest]
  | case4 tokens h₁ h₂ h₃ => simp_all [equations?]

theorem Join.isPartner_congr (h : ∀ table ∈ tables j.on, ρ table = ρ' table) :
    j.isPartner ρ = j.isPartner ρ' :=
  all_holds_congr h

end Locality

/-- A join is settled: under its name stands a partner of the other rows, or nothing, if the join
keeps rows without partner and there is none. -/
def Join.Settled (db : Database) (j : Join) (ρ : Joined) : Prop :=
  match ρ j.referenceName with
  | some r => r ∈ db.rowsOf j.table ∧ j.isPartner ρ
  | none => j.type = .left ∧ ∀ r ∈ db.rowsOf j.table, ¬ j.isPartner (j.set ρ (some r))

section Joining

variable {db : Database} {j : Join} {ρ ρ' : Joined}

@[simp] theorem Join.set_self (j : Join) (ρ : Joined) (r : Option Row) :
    j.set ρ r j.referenceName = r :=
  Function.update_self ..

theorem Join.set_of_ne {name : String} (h : name ≠ j.referenceName) (r : Option Row) :
    j.set ρ r name = ρ name :=
  Function.update_of_ne h ..

theorem Join.set_set (j : Join) (ρ : Joined) (r r' : Option Row) :
    j.set (j.set ρ r) r' = j.set ρ r' :=
  Function.update_idem ..

theorem Join.mem_extend : ρ' ∈ j.extend db ρ ↔
    (∃ r ∈ db.rowsOf j.table, j.isPartner (j.set ρ (some r)) ∧ j.set ρ (some r) = ρ') ∨
      j.type = .left ∧ (∀ r ∈ db.rowsOf j.table, ¬ j.isPartner (j.set ρ (some r))) ∧
        j.set ρ none = ρ' := by
  have hmem : ∀ r, r ∈ (db.rowsOf j.table).filter (fun r => j.isPartner (j.set ρ (some r))) ↔
      r ∈ db.rowsOf j.table ∧ j.isPartner (j.set ρ (some r)) = true := fun r => List.mem_filter
  unfold extend
  -- an inner join has partners only, and a left join may have nothing instead
  cases htype : j.type with
  | inner => simp only [List.mem_map, hmem, and_assoc, reduceCtorEq, false_and, or_false]
  | left =>
    revert hmem
    -- whether there is a partner decides which of the two it is
    cases (db.rowsOf j.table).filter fun r => j.isPartner (j.set ρ (some r)) with
    | nil =>
      intro hmem
      have hnone : ∀ r ∈ db.rowsOf j.table, ¬ j.isPartner (j.set ρ (some r)) :=
        fun r hr hpartner => absurd ((hmem r).mpr ⟨hr, hpartner⟩) List.not_mem_nil
      rw [List.mem_singleton]
      constructor
      · exact fun heq => .inr ⟨rfl, hnone, heq.symm⟩
      · rintro (⟨r, hr, hpartner, -⟩ | ⟨-, -, heq⟩)
        · exact absurd hpartner (hnone r hr)
        · exact heq.symm
    | cons first others =>
      intro hmem
      have hfirst := (hmem first).mp List.mem_cons_self
      simp only [List.mem_map, hmem, and_assoc]
      constructor
      · exact .inl
      · rintro (hpartner | ⟨-, hnone, -⟩)
        · exact hpartner
        · exact absurd hfirst.2 (hnone first hfirst.1)

/-- A join changes what stands under its own name, and settles itself. -/
theorem Join.mem_extend_iff_settled : ρ' ∈ j.extend db ρ ↔
    j.Settled db ρ' ∧ ∀ name, name ≠ j.referenceName → ρ' name = ρ name := by
  rw [mem_extend]
  constructor
  · rintro (⟨r, hr, hpartner, rfl⟩ | ⟨htype, hnone, rfl⟩)
    · refine ⟨?_, fun name hname => set_of_ne hname _⟩
      rw [Settled, set_self]
      exact ⟨hr, hpartner⟩
    · refine ⟨?_, fun name hname => set_of_ne hname _⟩
      rw [Settled, set_self]
      exact ⟨htype, by simpa only [set_set] using hnone⟩
  · rintro ⟨hsettled, hsame⟩
    have hset : ∀ r, j.set ρ' r = j.set ρ r := by
      intro r
      funext name
      by_cases hname : name = j.referenceName
      · rw [hname, set_self, set_self]
      · rw [set_of_ne hname, set_of_ne hname, hsame name hname]
    have heq : j.set ρ (ρ' j.referenceName) = ρ' := by
      rw [← hset]
      exact Function.update_eq_self ..
    unfold Settled at hsettled
    -- under its own name stands either a partner or nothing, as the two cases of extending say
    cases hself : ρ' j.referenceName with
    | some r =>
      rw [hself] at hsettled heq
      exact .inl ⟨r, hsettled.1, heq ▸ hsettled.2, heq⟩
    | none =>
      rw [hself] at hsettled heq
      exact .inr ⟨hsettled.1, by simpa only [hset] using hsettled.2, heq⟩

/-- A join that is settled stays so if only names change that its condition does not read. -/
theorem Join.Settled.congr (h : j.Settled db ρ)
    (hsame : ∀ table ∈ j.referenceName :: tables j.on, ρ table = ρ' table) : j.Settled db ρ' := by
  have hread : ∀ table ∈ tables j.on, ρ table = ρ' table :=
    fun table htable => hsame table (List.mem_cons_of_mem _ htable)
  have hset : ∀ r, j.isPartner (j.set ρ' (some r)) = j.isPartner (j.set ρ (some r)) := by
    intro r
    apply isPartner_congr
    intro table htable
    -- under its own name stands the row that was put there, in both
    by_cases heq : table = j.referenceName
    · rw [heq, set_self, set_self]
    · rw [set_of_ne heq, set_of_ne heq, hread table htable]
  unfold Settled at h ⊢
  rw [← hsame j.referenceName List.mem_cons_self, ← isPartner_congr hread]
  simpa only [hset] using h

/-- A settled join without a row is one that keeps rows. -/
theorem Join.Settled.type_eq (h : j.Settled db ρ) (hnone : ρ j.referenceName = none) :
    j.type = .left := by
  unfold Settled at h
  rw [hnone] at h
  exact h.1

theorem Join.Settled.mem_rowsOf (h : j.Settled db ρ) {r : Row}
    (hself : ρ j.referenceName = some r) : r ∈ db.rowsOf j.table := by
  unfold Settled at h
  rw [hself] at h
  exact h.1

/-- The rows that joins extend a row to: under other names nothing has changed, and every join is
settled. -/
theorem mem_joinAll_iff {present : List String} {joins : List Join}
    (hclosed : JoinsClosed present joins)
    (hnodup : (present ++ joins.map Join.referenceName).Nodup) :
    ρ' ∈ joinAll db joins ρ ↔
      (∀ name, name ∉ joins.map Join.referenceName → ρ' name = ρ name) ∧
        ∀ j ∈ joins, j.Settled db ρ' := by
  -- on the joins, each of which adds its own name to those that are present
  induction joins generalizing present ρ with
  | nil =>
    rw [joinAll, List.mem_singleton]
    constructor
    · rintro rfl
      exact ⟨fun _ _ => rfl, fun _ hj => absurd hj List.not_mem_nil⟩
    · exact fun h => funext fun name => h.1 name List.not_mem_nil
  | cons j joins ih =>
    obtain ⟨hread, hrest⟩ := hclosed
    have hnodup' : (j.referenceName :: present ++ joins.map Join.referenceName).Nodup :=
      List.perm_middle.nodup_iff.mp hnodup
    -- what the join reads is not introduced later
    have hapart : ∀ table ∈ j.referenceName :: tables j.on,
        table ∉ joins.map Join.referenceName := by
      intro table htable hmem
      have hpresent : table ∈ j.referenceName :: present := by
        rcases List.mem_cons.mp htable with rfl | htable
        · exact List.mem_cons_self
        · exact hread htable
      exact (List.nodup_append.mp hnodup').2.2 table hpresent table hmem rfl
    simp only [joinAll, List.mem_flatMap, Join.mem_extend_iff_settled, ih hrest hnodup',
      List.map_cons, List.mem_cons, not_or, forall_eq_or_imp]
    constructor
    · rintro ⟨ρ₁, ⟨hsettled, hfirst⟩, hsame, hothers⟩
      refine ⟨fun name hname => (hsame name hname.2).trans (hfirst name hname.1), ?_, hothers⟩
      exact hsettled.congr fun table htable => (hsame table (hapart table htable)).symm
    · rintro ⟨hsame, hsettled, hothers⟩
      -- the row in between has what the last one has under this name, and the start elsewhere
      have hset : ∀ name, name ∉ joins.map Join.referenceName →
          ρ' name = j.set ρ (ρ' j.referenceName) name := by
        intro name hname
        by_cases heq : name = j.referenceName
        · rw [heq, Join.set_self]
        · rw [Join.set_of_ne heq, hsame name ⟨heq, hname⟩]
      refine ⟨j.set ρ (ρ' j.referenceName), ⟨?_, fun name hname => Join.set_of_ne hname _⟩, hset,
        hothers⟩
      exact hsettled.congr fun table htable => hset table (hapart table htable)

/-- The rows of a statement: a row of the table that it starts from, and rows or nothing under the
names of its joins such that each of them is settled. -/
theorem Query.mem_rows_iff {q : Query} {t : TableRef} (hsource : q.source = some t)
    (hclosed : JoinsClosed q.start q.joins) (hnodup : q.introduced.Nodup) :
    ρ ∈ q.rows db ↔ (∃ r ∈ db.rowsOf t, ρ t.referenceName = some r) ∧
      (∀ name, name ∉ q.introduced → ρ name = none) ∧ ∀ j ∈ q.joins, j.Settled db ρ := by
  -- the names of the start and of the joins are all that is introduced
  have hstart : q.start = [t.referenceName] := by simp [start, hsource]
  have hintroduced : q.introduced = [t.referenceName] ++ q.joins.map Join.referenceName := by
    rw [introduced, hstart]
  rw [hstart] at hclosed
  rw [hintroduced] at hnodup ⊢
  have hfirst : t.referenceName ∉ q.joins.map Join.referenceName := (List.nodup_cons.mp hnodup).1
  simp only [rows, hsource, Option.toList_some, List.flatMap_singleton, List.mem_flatMap,
    mem_joinAll_iff hclosed hnodup, List.mem_append, List.mem_singleton, not_or]
  constructor
  · rintro ⟨r, hr, hsame, hsettled⟩
    refine ⟨⟨r, hr, ?_⟩, fun name hname => ?_, hsettled⟩
    · rw [hsame _ hfirst, Function.update_self]
    · rw [hsame _ hname.2, Function.update_of_ne hname.1]
  · rintro ⟨⟨r, hr, hself⟩, hnone, hsettled⟩
    refine ⟨r, hr, fun name hname => ?_, hsettled⟩
    -- the start has a row under its own name and under no other
    by_cases heq : name = t.referenceName
    · rw [heq, hself, Function.update_self]
    · rw [Function.update_of_ne heq, hnone name ⟨heq, hname⟩]

end Joining

end Sql

end EntityQuery
