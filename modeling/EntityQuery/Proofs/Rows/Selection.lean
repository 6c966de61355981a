import EntityQuery.Proofs.PublicOnly
import EntityQuery.Proofs.Rows.Consistent
import EntityQuery.Proofs.Selections

/-!
# Rows of selections

A selection is meant to add columns to the rows of its expression and neither to lose a row of the
root nor to add one. Its statement has all joins of the expression's statement and some more, and
two things can go wrong.

A join that is new drops rows without partner if it leads down to an entity that is only passed on
the way to a selected one. So the entities on the way have to be selected as well, or joined anyway.

A join that the two have in common keeps rows without partner if its entity is selected now. So the
missing row must be noticed elsewhere: by a join below that drops rows, or by the WHERE clause.
-/

namespace EntityQuery

open JoinRequest (IsPlan)
open Sql (Condition Database IsReading Join Joined Params Query Reads Row Test tables
  withoutBlanks)

/-! ## §1 The statement of a selection -/

namespace Draft.Selects

variable {s : Schema} {d d' : Draft} {entities : List String}

theorem finalJoins_root (h : d.Selects entities d') : d'.finalJoins.root = d.finalJoins.root :=
  h.root

/-- What was shown is still shown. -/
theorem selection_subset (h : d.Selects entities d') :
    d.finalJoins.root :: d.finalJoins.selection s ⊆
      d'.finalJoins.root :: d'.finalJoins.selection s := by
  rw [h.finalJoins_root]
  apply List.cons_subset_cons
  intro name hname
  rw [JoinRequest.selection, s.mem_inOrder_iff] at hname ⊢
  exact (h.selected name).mpr (.inr hname)

/-- What was joined is still joined. -/
theorem exists_hop (h : d.Selects entities d') {hops hops' : List Hop}
    {steps steps' : List JoinStep} (hplan : IsPlan s d.finalJoins hops steps)
    (hplan' : IsPlan s d'.finalJoins hops' steps') {hop : Hop} (hhop : hop ∈ hops) :
    ∃ type, { hop with type } ∈ hops' :=
  hplan.exists_hop hplan' h.finalJoins_root (fun name hname => (h.required name).mpr (.inr hname))
    hhop

end Draft.Selects

namespace Compiles

variable {s : Schema} {root : String} {e e' : Expression} {o : CompileOptions} {scope : Scope}
  {d d' : Draft} {steps steps' : List JoinStep} {q q' : Query} {entities : List String}

/-- A selection has all joins of its expression, and the same WHERE clause. -/
theorem widens (h : Compiles s root e o scope d steps q)
    (h' : Compiles s root e' o scope d' steps' q') (hselects : d.Selects entities d') :
    q.Widens q' := by
  obtain ⟨hops, hplan⟩ := h.exists_isPlan
  obtain ⟨hops', hplan'⟩ := h'.exists_isPlan
  have hroot := hselects.finalJoins_root
  refine ⟨h'.source_eq.trans h.source_eq.symm, ?_, ?_⟩
  · -- the WHERE clause is that of the expression
    obtain ⟨_, _, -, hassembles⟩ := h.assembled
    obtain ⟨_, _, -, hassembles'⟩ := h'.assembled
    rw [hassembles.query, hassembles'.query]
    simp only [Draft.statement, Draft.filter, hselects.condition]
  · intro j hj
    rw [h.joins_eq] at hj
    rw [h'.joins_eq]
    rcases hplan.mem_joins_iff.mp hj with ⟨hop, hhop, rfl⟩ | ⟨owner, howner, rfl⟩ | ⟨hexp, rfl⟩
    · obtain ⟨type, hhop'⟩ := hselects.exists_hop hplan hplan' hhop
      refine ⟨type, hplan'.mem_joins_iff.mpr (.inl ⟨_, hhop', rfl⟩), fun hleft => ?_⟩
      -- what was selected is still selected
      obtain ⟨hoff, hselected⟩ := (hplan.typed hop hhop).mp hleft
      exact (hplan'.typed _ hhop').mpr ⟨hroot ▸ hoff, (hselects.selected _).mpr (.inr hselected)⟩
    · -- identifiers are joined for what is shown, and that has only grown
      have howner' := hselects.selection_subset howner
      exact ⟨.left, hplan'.mem_joins_iff.mpr (.inr (.inl ⟨owner, howner', rfl⟩)), fun _ => rfl⟩
    · refine ⟨.inner, hplan'.mem_joins_iff.mpr (.inr (.inr ⟨rfl, ?_⟩)), id⟩
      rw [hroot]
      rfl

/-- If the names of a selection's tables are all different, those of its expression are. -/
theorem nodup_introduced (h : Compiles s root e o scope d steps q)
    (h' : Compiles s root e' o scope d' steps' q') (hselects : d.Selects entities d')
    (hnodup' : q'.introduced.Nodup) : q.introduced.Nodup := by
  obtain ⟨hops, hplan⟩ := h.exists_isPlan
  obtain ⟨hops', hplan'⟩ := h'.exists_isPlan
  rw [h'.introduced_eq, hplan'.nodup_references_iff h'.sound] at hnodup'
  rw [h.introduced_eq, hplan.nodup_references_iff h.sound]
  have htables : hopTables hops ⊆ hopTables hops' := by
    intro name hname
    obtain ⟨hop, hhop, rfl⟩ := List.mem_map.mp hname
    obtain ⟨type, hhop'⟩ := hselects.exists_hop hplan hplan' hhop
    exact List.mem_map.mpr ⟨_, hhop', rfl⟩
  -- names clash only between identifiers and entities, and there are fewer of both
  intro owner howner name hname
  apply hnodup' owner (hselects.selection_subset howner) name
  rw [hselects.finalJoins_root]
  exact List.cons_subset_cons _ htables hname

theorem mem_joins_of_hop (h : Compiles s root e o scope d steps q) {hops : List Hop}
    (hplan : IsPlan s d.finalJoins hops steps) {hop : Hop} (hhop : hop ∈ hops) :
    (JoinStep.entity hop).toJoin o.network ∈ q.joins := by
  rw [h.joins_eq]
  exact hplan.mem_joins_iff.mpr (.inl ⟨hop, hhop, rfl⟩)

/-- In the rows of a compiled statement, all joins are settled. -/
theorem settled_of_mem_rows (h : Compiles s root e o scope d steps q) (hnodup : q.introduced.Nodup)
    {db : Database} {ρ : Joined} (hρ : ρ ∈ q.rows db) : ∀ j ∈ q.joins, j.Settled db ρ :=
  ((Sql.Query.mem_rows_iff h.source_eq h.closed.joins hnodup).mp hρ).2.2

end Compiles

/-! ## §2 Tables of the WHERE clause -/

/-- A clause reads the tables of its atoms. -/
theorem Sql.IsReading.tables_eq {c : Option Condition} {f : Formula (Test Nat)}
    (h : IsReading (c.elim [] Condition.tokens) f) :
    tables (c.elim [] Condition.tokens) = f.atoms.filterMap Test.table? := by
  cases c with
  | none => exact absurd rfl (Reads.ne_nil h)
  | some c =>
    obtain ⟨g, hg, hatoms⟩ := c.exists_isReading
    rw [Option.elim_some] at h ⊢
    rw [h.unique hg, hatoms, Condition.tables_tokens]

theorem Compiles.tables_filter {s : Schema} {root : String} {e : Expression} {o : CompileOptions}
    {scope : Scope} {d : Draft} {steps : List JoinStep} {q : Query}
    (h : Compiles s root e o scope d steps q) {f : Formula (Test Nat)}
    (hf : IsReading q.filter f) : tables q.filter = f.atoms.filterMap Test.table? := by
  rw [h.filter_eq] at hf ⊢
  exact hf.tables_eq

/-! ## §3 No row is lost -/

/-- A statement joins the table of an entity. -/
def Sql.Query.JoinsEntity (q : Query) (network : Nat) (name : String) : Prop :=
  ∃ j ∈ q.joins, j.table = entityTable network name

/-- A statement drops the rows that have no partner in the table of an entity. -/
def Sql.Query.DropsWithout (q : Query) (network : Nat) (name : String) : Prop :=
  ∃ j ∈ q.joins, j.table = entityTable network name ∧ j.type = .inner

/-- Off the lineage of the root, each entity on the way to a selected one is selected as well, or a
statement joins it anyway. -/
def Sql.Query.CoversWays (q : Query) (s : Schema) (root : String) (network : Nat)
    (entities : List String) : Prop :=
  ∀ target ∈ entities, ∀ name, s.OnPath root target name → ¬ s.AtOrAbove name root →
    name ∈ entities ∨ q.JoinsEntity network name

namespace Compiles

section Selection

variable {s : Schema} {root : String} {e e' : Expression} {o : CompileOptions} {scope : Scope}
  {d d' : Draft} {steps steps' : List JoinStep} {q q' : Query} {entities : List String}

theorem mem_introduced (h : Compiles s root e o scope d steps q) {name : String}
    (hcovers : d.finalJoins.Covers name) : name ∈ q.introduced := by
  obtain ⟨hops, hplan⟩ := h.exists_isPlan
  rw [h.introduced_eq]
  exact hplan.mem_references h.sound hcovers

/-- A new join that drops rows leads up to an ancestor of the root. -/
theorem exists_hop_of_new (h : Compiles s root e o scope d steps q)
    (h' : Compiles s root e' o scope d' steps' q') (hselects : d.Selects entities d')
    (hways : q.CoversWays s root o.network entities) {hops' : List Hop}
    (hplan' : IsPlan s d'.finalJoins hops' steps') {j : Join} (hj : j ∈ q'.joins)
    (hnew : j.referenceName ∉ q.introduced) (hinner : j.type = .inner) :
    ∃ hop ∈ hops', s.AtOrAbove hop.table root ∧ (JoinStep.entity hop).toJoin o.network = j := by
  have hroot' := h'.finalJoins_root_eq
  have hroot := h.finalJoins_root_eq
  rw [h'.joins_eq] at hj
  rcases hplan'.mem_joins_iff.mp hj with ⟨hop, hhop, rfl⟩ | ⟨owner, -, rfl⟩ | ⟨-, rfl⟩
  · refine ⟨hop, hhop, ?_, rfl⟩
    by_contra hoff
    -- otherwise it would be on the way to an entity that is selected or was required before
    -- its table is on the way to a required entity, which was selected or required before
    obtain ⟨hne, target, htarget, hpath⟩ := (hplan'.tables _).mp (List.mem_map_of_mem hhop)
    rw [hroot'] at hne hpath
    rcases (hselects.required target).mp htarget with ⟨-, htarget⟩ | htarget
    · -- a selected one: the entity is selected as well, so the hop keeps rows, or it was joined
      -- anyway
      rcases hways target htarget hop.table hpath hoff with hmem | ⟨j, hj, htable⟩
      · have hselected := (hselects.selected hop.table).mpr (.inl ⟨hroot ▸ hne, hmem⟩)
        have hleft := (hplan'.typed hop hhop).mpr ⟨hroot' ▸ hoff, hselected⟩
        exact absurd (hleft.symm.trans hinner) (by simp)
      · apply hnew
        have hname : j.referenceName = hop.table := congrArg Sql.TableRef.referenceName htable
        exact List.mem_append_right _ (List.mem_map.mpr ⟨j, hj, hname⟩)
    · -- one that was required before: then the expression's statement has joined it
      obtain ⟨hops, hplan⟩ := h.exists_isPlan
      apply hnew
      rw [h.introduced_eq, hplan.map_reference]
      have hmem : hop.table ∈ hopTables hops :=
        (hplan.tables _).mpr ⟨hroot ▸ hne, target, htarget, hroot ▸ hpath⟩
      show hop.table ∈ _
      simp [hmem]
  · -- identifiers are joined without dropping rows
    exact absurd hinner (by simp [JoinStep.toJoin])
  · -- the expeditions are joined by every statement
    exact absurd (h.mem_introduced d.joins.covers_requireExpeditions) hnew

/-- So it finds a partner, as there is a row that it is made from. -/
theorem exists_partner_of_new (h : Compiles s root e o scope d steps q)
    (h' : Compiles s root e' o scope d' steps' q') (hselects : d.Selects entities d')
    (hways : q.CoversWays s root o.network entities) (hnodup' : q'.introduced.Nodup)
    {db : Database} (hdb : db.Consistent s o.network) {before after : List Join} {j : Join}
    (heq : q'.joins = before ++ j :: after) (hnew : j.referenceName ∉ q.introduced)
    (hinner : j.type = .inner) {ρ : Joined}
    (hfirst : ∃ r ∈ db.rowsOf (entityTable o.network root), ρ root = some r)
    (hbefore : ∀ j₁ ∈ before, j₁.Settled db ρ) :
    ∃ r ∈ db.rowsOf j.table, j.isPartner (j.set ρ (some r)) := by
  obtain ⟨hops', hplan'⟩ := h'.exists_isPlan
  have hroot' := h'.finalJoins_root_eq
  have hstart' : q'.start = [d'.finalJoins.root] := by
    rw [h'.start_eq, h'.finalJoins_root]
  have hj : j ∈ q'.joins := heq ▸ List.mem_append_right _ List.mem_cons_self
  obtain ⟨hop, hhop, habove, rfl⟩ := h.exists_hop_of_new h' hselects hways hplan' hj hnew hinner
  -- it is a hop upwards, and the row of the child is there as the joins before it are settled
  rcases hplan'.directed hop hhop with ⟨-, htable, hchild⟩ | ⟨hoff, -⟩
  · have hclosed' := h'.closed.joins
    have hnames' := (List.nodup_append.mp hnodup').2.1
    rw [h'.joins_eq] at heq hclosed' hnames'
    rw [hstart'] at hclosed'
    obtain ⟨row, hrow, hself⟩ := hplan'.exists_child_row hclosed' hnames' hhop htable hchild heq
      (hroot'.symm ▸ hfirst) hbefore
    exact exists_partner hdb.toKeyed (hplan'.link hhop) htable hrow hself
  · -- a hop downwards would not lead to an ancestor of the root
    exact absurd (hroot'.symm ▸ habove) hoff

/-- A row of the root that the expression's statement returns is returned by the selection's. -/
theorem returns_of_returns (h : Compiles s root e o scope d steps q)
    (h' : Compiles s root e' o scope d' steps' q') (hselects : d.Selects entities d')
    (hways : q.CoversWays s root o.network entities) (hnodup' : q'.introduced.Nodup)
    {db : Database} (hdb : db.Consistent s o.network)
    {meaning : Predicate → Row → Option Bool} {p : Params} {r : Row}
    (hreturns : q.Returns db meaning p r) : q'.Returns db meaning p r := by
  -- the joined rows of the expression's statement are completed with partners in the new tables
  obtain ⟨hnodup, ρ, hρ, haccepts, name, hname, hr⟩ := hreturns
  have hwidens := h.widens h' hselects
  obtain ⟨ρ', hρ', hsame⟩ := hwidens.exists_rows h.source_eq h.closed.joins hnodup h'.closed.joins
    hnodup' hρ fun _ _ _ heq hnew hinner _ =>
      h.exists_partner_of_new h' hselects hways hnodup' hdb heq hnew hinner
  refine ⟨hnodup', ρ', hρ', ?_, name, hwidens.start_eq.symm ▸ hname, ?_⟩
  · -- the WHERE clause reads old tables only, in which the rows are the same
    refine haccepts.congr hwidens.filter fun f hf t ht table htable => hsame table ?_
    apply h.closed.filter
    rw [h.tables_filter hf]
    exact List.mem_filterMap.mpr ⟨t, ht, htable⟩
  · rw [hsame name (List.mem_append_left _ hname), hr]

/-- The entities on the way have to be covered: if one is not, the expression's statement does not
join it, and the selection's returns nothing from a database in which that entity has no row. -/
theorem exists_dropped_of_not_coversWays (h : Compiles s root e o scope d steps q)
    (h' : Compiles s root e' o scope d' steps' q') (hselects : d.Selects entities d')
    (hways : ¬ q.CoversWays s root o.network entities) :
    ∃ name, ¬ q.JoinsEntity o.network name ∧ q'.DropsWithout o.network name ∧
      ∀ db : Database, db.rowsOf (entityTable o.network name) = [] →
        ∀ meaning p r, ¬ q'.Returns db meaning p r := by
  obtain ⟨hops, hplan⟩ := h.exists_isPlan
  obtain ⟨hops', hplan'⟩ := h'.exists_isPlan
  have hroot' := h'.finalJoins_root_eq
  have hroot := h.finalJoins_root_eq
  unfold Sql.Query.CoversWays at hways
  push Not at hways
  -- take an entity on the way that is neither selected nor joined
  obtain ⟨target, htarget, name, hpath, hoff, hname, hjoins⟩ := hways
  have hne : name ≠ root := fun heq => hoff (heq ▸ .refl _)
  have htargetRoot : target ≠ root := by
    rintro rfl
    exact hne hpath.eq_of_self
  have hmem : name ∈ hopTables hops' := by
    refine (hplan'.tables _).mpr ⟨hroot' ▸ hne, target, ?_, hroot' ▸ hpath⟩
    exact (hselects.required target).mpr (.inl ⟨hroot ▸ htargetRoot, htarget⟩)
  obtain ⟨hop', hhop', rfl⟩ := List.mem_map.mp hmem
  have hj' := h'.mem_joins_of_hop hplan' hhop'
  -- the expression has not selected it either, or its statement would join it
  have hinner : hop'.type = .inner := by
    cases htype : hop'.type with
    | inner => rfl
    | left =>
      obtain ⟨-, hselected⟩ := (hplan'.typed hop' hhop').mp htype
      rcases (hselects.selected hop'.table).mp hselected with ⟨-, hmem⟩ | hselected
      · exact absurd hmem hname
      · have hhop := hplan.mem_hopTables h.sound (h.sound.selected hselected)
        obtain ⟨hop, hhop, htable⟩ := List.mem_map.mp hhop
        have hj := h.mem_joins_of_hop hplan hhop
        exact absurd ⟨_, hj, congrArg (entityTable o.network) htable⟩ hjoins
  refine ⟨hop'.table, hjoins, ⟨_, hj', rfl, hinner⟩, ?_⟩
  rintro db hnone meaning p r ⟨hnodup', ρ, hρ, -⟩
  have hsettled := h'.settled_of_mem_rows hnodup' hρ _ hj'
  -- an inner join has a row in its table, and there is none
  cases hself : ρ ((JoinStep.entity hop').toJoin o.network).referenceName with
  | none => exact absurd ((hsettled.type_eq hself).symm.trans hinner) (by simp)
  | some row =>
    have hrow : row ∈ db.rowsOf (entityTable o.network hop'.table) := hsettled.mem_rowsOf hself
    rw [hnone] at hrow
    exact absurd hrow List.not_mem_nil

end Selection

end Compiles

/-! ## §4 No row is added -/

/-- The WHERE clause is never true where no row stands in some tables. -/
def Sql.Query.FailsWithout (q : Query) (missing : String → Prop) : Prop :=
  q.filter ≠ [] ∧ ∀ f, IsReading q.filter f → ∀ v : Test Nat → Option Bool,
    v .always = some true → (∀ t ∈ f.atoms, ∀ table ∈ t.table?, missing table → v t = none) →
      f.truth v ≠ some true

/-- A clause that is a single test fails where no row stands in its table. -/
theorem Sql.Query.failsWithout_of_test {q : Query} {t : Test Nat} {table : String}
    {missing : String → Prop} (hfilter : q.filter = t.tokens) (htable : t.table? = some table)
    (hmissing : missing table) : q.FailsWithout missing := by
  have hreading : IsReading q.filter (.atom t) := by
    rw [hfilter]
    exact .conjunction (.factor (.test t))
  refine ⟨Reads.ne_nil hreading ∘ congrArg withoutBlanks, fun f hf v _ hnone htrue => ?_⟩
  obtain rfl := hf.unique hreading
  have hunknown := hnone t List.mem_cons_self table htable hmissing
  exact absurd (hunknown.symm.trans htrue) (by simp)

/-- A statement drops the rows without partner at selected entities, and the statement of the
selection does so below them, or its WHERE clause is never true there. -/
def Sql.Query.StillNeeds (q q' : Query) (s : Schema) (root : String) (network : Nat)
    (entities : List String) : Prop :=
  ∀ name ∈ entities, ¬ s.AtOrAbove name root → q.DropsWithout network name →
    (∃ below, s.AtOrAbove name below ∧ q'.DropsWithout network below) ∨
      q.FailsWithout (s.AtOrAbove name)

theorem Schema.Declares.not_atOrAbove_expeditionsTable {s : Schema} {name : String}
    (h : s.Declares [name]) : ¬ s.AtOrAbove name expeditionsTable := by
  intro habove
  by_cases heq : name = expeditionsTable
  · exact h.ne_expeditionsTable _ List.mem_cons_self heq
  · exact (habove.declares_of_ne heq).2.ne_expeditionsTable _ List.mem_cons_self rfl

namespace Compiles

section Selection

variable {s : Schema} {root : String} {e e' : Expression} {o : CompileOptions} {scope : Scope}
  {d d' : Draft} {steps steps' : List JoinStep} {q q' : Query} {entities : List String}
  {db : Database} {ρ : Joined}

/-- Where the row of an entity is missing, no row stands in the tables below it that the WHERE
clause reads. -/
theorem missing_of_mem_tables (h : Compiles s root e o scope d steps q) {hops : List Hop}
    (hplan : IsPlan s d.finalJoins hops steps) (hnodup : q.introduced.Nodup)
    (hρ : ρ ∈ q.rows db) {name : String} (hname : name ∈ hopTables hops)
    (hoff : ¬ s.AtOrAbove name d.finalJoins.root) (hmissing : ρ name = none) {table : String}
    (htable : table ∈ tables q.filter) (habove : s.AtOrAbove name table) : ρ table = none := by
  rcases h.covers_filter htable with rfl | hrequired | ⟨rfl, -⟩
  · -- the table of the root is not below an entity off its lineage
    exact absurd habove hoff
  · have hsettled := fun (hop : Hop) (hhop : hop ∈ hops) =>
      h.settled_of_mem_rows hnodup hρ _ (h.mem_joins_of_hop hplan hhop)
    exact hplan.missing_below hsettled habove hoff (hplan.mem_hopTables h.sound hrequired) hmissing
  · -- nor is that of the expeditions, which is no entity
    have hdeclares := hplan.declares_hopTables h.sound name hname
    exact absurd habove (Schema.declares_singleton.mpr hdeclares).not_atOrAbove_expeditionsTable

/-- A join that dropped rows without partner and keeps them in the selection's statement leads to a
selected entity off the lineage of the root. -/
theorem exists_hop_of_kept (h : Compiles s root e o scope d steps q)
    (h' : Compiles s root e' o scope d' steps' q') (hselects : d.Selects entities d')
    (hnodup' : q'.introduced.Nodup) {hops' : List Hop}
    (hplan' : IsPlan s d'.finalJoins hops' steps') {j : Join} (hj : j ∈ q.joins)
    (hinner : j.type = .inner) (hj' : { j with type := .left } ∈ q'.joins) :
    ∃ name ∈ entities, name ∈ hopTables hops' ∧ ¬ s.AtOrAbove name d'.finalJoins.root ∧
      j.table = entityTable o.network name := by
  obtain ⟨hops, hplan⟩ := h.exists_isPlan
  have hroot := hselects.finalJoins_root
  rw [h.joins_eq] at hj
  rcases hplan.mem_joins_iff.mp hj with ⟨hop, hhop, rfl⟩ | ⟨owner, -, rfl⟩ | ⟨-, rfl⟩
  · rw [h'.joins_eq] at hj'
    obtain ⟨hop', hhop', hname, heq⟩ := hplan'.exists_hop_of_table hj' rfl
    obtain ⟨hoff, hselected⟩ := (hplan'.typed hop' hhop').mp (congrArg Join.type heq)
    rw [hname] at hoff hselected
    refine ⟨hop.table, ?_, hname ▸ List.mem_map_of_mem hhop', hoff, rfl⟩
    rcases (hselects.selected hop.table).mp hselected with ⟨-, hmem⟩ | hmem
    · exact hmem
    · -- it would have kept the rows before
      have hleft := (hplan.typed hop hhop).mpr ⟨hroot ▸ hoff, hmem⟩
      exact absurd (hleft.symm.trans hinner) (by simp)
  · exact absurd hinner (by simp [JoinStep.toJoin])
  · -- the expeditions are joined in one way
    have hexpeditions := h'.expeditions_mem_joins
    have heq := List.inj_on_of_nodup_map (List.nodup_append.mp hnodup').2.1 hj' hexpeditions rfl
    exact absurd (congrArg Join.type heq) (by simp [JoinStep.toJoin])

/-- In the rows that the selection's statement returns, no row is missing for which the expression's
statement would have dropped them. -/
theorem kept_of_accepts (h : Compiles s root e o scope d steps q)
    (h' : Compiles s root e' o scope d' steps' q') (hselects : d.Selects entities d')
    (hneeds : q.StillNeeds q' s root o.network entities) (hnodup' : q'.introduced.Nodup)
    {meaning : Predicate → Row → Option Bool} {p : Params} (hρ : ρ ∈ q'.rows db)
    (haccepts : q'.Accepts meaning p ρ) :
    ∀ j ∈ q.joins, j.type = .inner → ρ j.referenceName ≠ none := by
  intro j hj hinner hmissing
  obtain ⟨hops', hplan'⟩ := h'.exists_isPlan
  have hroot' := h'.finalJoins_root_eq
  have hwidens := h.widens h' hselects
  obtain ⟨type, hj', -⟩ := hwidens.joins j hj
  -- the selection's statement keeps the rows, or it would have dropped this one
  obtain rfl : type = .left := (h'.settled_of_mem_rows hnodup' hρ _ hj').type_eq hmissing
  obtain ⟨name, hentity, hname, hoff, htable⟩ :=
    h.exists_hop_of_kept h' hselects hnodup' hplan' hj hinner hj'
  have hself : ρ name = none := by
    rwa [Join.referenceName, htable] at hmissing
  rcases hneeds name hentity (hroot' ▸ hoff) ⟨j, hj, htable, hinner⟩ with
    ⟨below, habove, j', hmem, htable', hinner'⟩ | ⟨hfilter, hfails⟩
  · -- a join below it would have dropped the rows
    have hbelow := hmem
    rw [h'.joins_eq] at hbelow
    obtain ⟨hop, hhop, rfl, rfl⟩ := hplan'.exists_hop_of_table hbelow htable'
    have hsettled := fun (hop : Hop) (hhop : hop ∈ hops') =>
      h'.settled_of_mem_rows hnodup' hρ _ (h'.mem_joins_of_hop hplan' hhop)
    have hnone := hplan'.missing_below hsettled habove hoff (List.mem_map_of_mem hhop) hself
    have hleft := (h'.settled_of_mem_rows hnodup' hρ _ hmem).type_eq hnone
    exact absurd (hleft.symm.trans hinner') (by simp)
  · -- no row stands below, so that the clause is not true
    rcases haccepts with hnil | ⟨f, hf, htrue⟩
    · exact hfilter (hwidens.filter ▸ hnil)
    · refine hfails f (hwidens.filter ▸ hf) _ rfl (fun t ht table htable habove => ?_) htrue
      have hread : table ∈ tables q'.filter := by
        rw [h'.tables_filter hf]
        exact List.mem_filterMap.mpr ⟨t, ht, htable⟩
      have hnone := h'.missing_of_mem_tables hplan' hnodup' hρ hname hoff hself hread habove
      obtain htable : t.table? = some table := htable
      simp only [Test.truth, htable, hnone, Option.bind_none]

/-- A row of the root that the selection's statement returns is returned by the expression's. -/
theorem returns_of_returns_selection (h : Compiles s root e o scope d steps q)
    (h' : Compiles s root e' o scope d' steps' q') (hselects : d.Selects entities d')
    (hneeds : q.StillNeeds q' s root o.network entities)
    {meaning : Predicate → Row → Option Bool} {p : Params} {r : Row}
    (hreturns : q'.Returns db meaning p r) : q.Returns db meaning p r := by
  obtain ⟨hnodup', ρ', hρ', haccepts, name, hname, hr⟩ := hreturns
  have hwidens := h.widens h' hselects
  have hnodup := h.nodup_introduced h' hselects hnodup'
  rw [hwidens.start_eq] at hname
  -- the joined rows of the selection's statement are cut down to the tables of the expression's
  obtain ⟨ρ, hρ, hsame⟩ := hwidens.exists_rows_of_kept h.source_eq h.closed.joins hnodup
    h'.closed.joins hnodup' hρ' (h.kept_of_accepts h' hselects hneeds hnodup' hρ' haccepts)
  refine ⟨hnodup, ρ, hρ, ?_, name, hname, ?_⟩
  · refine haccepts.congr hwidens.filter.symm fun f hf t ht table htable => hsame table ?_
    apply h.closed.filter
    rw [← hwidens.filter, h'.tables_filter hf]
    exact List.mem_filterMap.mpr ⟨t, ht, htable⟩
  · rw [hsame name (List.mem_append_left _ hname), hr]

end Selection

end Compiles

/-! ## §5 Selections project -/

/-- A selection of the root and of related entities compiles if its expression does, binds the same
values, and returns the same rows of the root from every consistent database, under two conditions.
No row is lost if each entity on the way to a selected one that is neither at or above the root nor
selected itself is joined by the expression's statement, and no two tables have one name. No row is
added if, where the expression's statement drops rows without partner at a selected entity, the
selection's statement drops them below it or has a WHERE clause that is never true of them. -/
theorem Schema.select_projects {s : Schema} {root : String} {e : Expression} {o : CompileOptions}
    {p : Sql.Prepared} {entities : List String} (h : s.compile root e o = .ok p)
    (hentities : ∀ name ∈ entities, name = root ∨ s.areRelated root name = true) :
    ∃ scope d d' steps steps', ∃ q q' : Query, Compiles s root e o scope d steps q ∧
      Compiles s root (.selectWith entities e) o scope d' steps' q' ∧
      p = ⟨q.text, d.params⟩ ∧
      s.compile root (.selectWith entities e) o = .ok ⟨q'.text, p.params⟩ ∧
      ∀ db : Database, db.Consistent s o.network →
        ∀ (meaning : Predicate → Row → Option Bool) (r : Row),
          (q.CoversWays s root o.network entities → q'.introduced.Nodup →
            q.Returns db meaning p.params r → q'.Returns db meaning p.params r) ∧
          (q.StillNeeds q' s root o.network entities →
            q'.Returns db meaning p.params r → q.Returns db meaning p.params r) := by
  obtain ⟨scope, d, steps, q, hcompiles, rfl⟩ := exists_compiles h
  obtain ⟨d', steps', q', hcompiles', hselects⟩ := hcompiles.exists_selectWith hentities
  refine ⟨scope, d, d', steps, steps', q, q', hcompiles, hcompiles', rfl, ?_, ?_⟩
  · rw [hcompiles'.compile_eq, hselects.params]
  · intro db hdb meaning r
    exact ⟨fun hways hnodup' => hcompiles.returns_of_returns hcompiles' hselects hways hnodup' hdb,
      fun hneeds => hcompiles.returns_of_returns_selection hcompiles' hselects hneeds⟩

/-- Events with a tissue of some identifier. -/
def Expression.tissueSurvey : Expression :=
  .comparison "tissueID" .eq "T1"

/-- Queries on the events of the survey. -/
def Scope.survey : Scope :=
  { schema := .survey, root := "Event" }

/-- Photos and tissues can be selected without losing or adding events: samples are joined anyway,
photos are kept apart, and where no tissue stands the clause is not true. -/
theorem Schema.select_projects_survey :
    ∃ p p', ∃ q q' : Query, Schema.survey.compile "Event" .tissueSurvey {} = .ok p ∧
      Schema.survey.compile "Event" (.selectWith ["Photo", "Tissue"] .tissueSurvey) {} = .ok p' ∧
      p.text = q.text ∧ p'.text = q'.text ∧ p'.params = p.params ∧
      q.joins.map (fun j => (j.type, j.referenceName)) =
        [(.inner, "Sample"), (.inner, "Tissue"), (.left, "Event_entity_identifiers"),
          (.inner, "expeditions")] ∧
      q'.joins.map (fun j => (j.type, j.referenceName)) =
        [(.left, "Photo"), (.inner, "Sample"), (.left, "Tissue"),
          (.left, "Event_entity_identifiers"), (.left, "Photo_entity_identifiers"),
          (.left, "Tissue_entity_identifiers"), (.inner, "expeditions")] ∧
      ∀ db : Database, db.Consistent .survey 1 → ∀ meaning r,
        q'.Returns db meaning p.params r ↔ q.Returns db meaning p.params r := by
  have hcompile : Schema.survey.compile "Event" .tissueSurvey {} = .ok _ := rfl
  have hentities : ∀ name ∈ ["Photo", "Tissue"],
      name = "Event" ∨ Schema.survey.areRelated "Event" name = true := by decide
  obtain ⟨scope, d, d', steps, steps', q, q', hcompiles, hcompiles', hp, hcompile', hrows⟩ :=
    select_projects hcompile hentities
  -- the parts of the statements are computed one after the other
  obtain ⟨_, _, -, hassembles⟩ := hcompiles.assembled
  obtain ⟨_, _, -, hassembles'⟩ := hcompiles'.assembled
  obtain rfl : Scope.survey = scope := Except.ok.inj hcompiles.inScope
  obtain rfl := (Prod.mk.inj hcompiles.visited).2
  obtain rfl := (Prod.mk.inj hcompiles'.visited).2
  obtain rfl := Except.ok.inj hassembles.plan
  obtain rfl := Except.ok.inj hassembles'.plan
  have htables : q.joins.map Join.table =
      [entityTable 1 "Sample", entityTable 1 "Tissue",
        ⟨none, identifiersTable, some "Event_entity_identifiers"⟩,
        ⟨none, expeditionsTable, none⟩] := by
    rw [hcompiles.joins_eq]
    rfl
  have hfilter :
      q.filter = (Test.compare (.localIdentifier "Tissue") none .eq 1 : Test Nat).tokens := by
    rw [hassembles.query]
    rfl
  have hsample : Schema.survey.IsParent "Sample" "Tissue" :=
    ⟨_, List.mem_cons_of_mem _ List.mem_cons_self, rfl, rfl⟩
  have hevent : Schema.survey.IsParent "Event" "Sample" :=
    ⟨_, List.mem_append_right [_, _, _] List.mem_cons_self, rfl, rfl⟩
  have hphoto : Schema.survey.IsParent "Event" "Photo" :=
    ⟨_, List.mem_append_right [_, _] List.mem_cons_self, rfl, rfl⟩
  -- the only entity on the way that is not selected is the sample, which is joined anyway
  have hways : q.CoversWays .survey "Event" 1 ["Photo", "Tissue"] := by
    rintro target htarget name ⟨meeting, -, -, habove⟩ hoff
    replace habove := habove.resolve_left hoff
    rcases List.mem_pair.mp htarget with rfl | rfl
    · rcases (AtOrAbove.iff_of_isParent hphoto).mp habove with rfl | habove
      · exact .inl List.mem_cons_self
      · exact absurd habove hoff
    · rcases (AtOrAbove.iff_of_isParent hsample).mp habove with rfl | habove
      · exact .inl (List.mem_pair.mpr (.inr rfl))
      · rcases (AtOrAbove.iff_of_isParent hevent).mp habove with rfl | habove
        · exact .inr (List.mem_map.mp (htables ▸ List.mem_cons_self))
        · exact absurd habove hoff
  have hneeds : q.StillNeeds q' .survey "Event" 1 ["Photo", "Tissue"] := by
    rintro name hname - ⟨j, hj, htable, -⟩
    rcases List.mem_pair.mp hname with rfl | rfl
    · -- photos are not joined without the selection
      have hphotos := List.mem_map.mpr ⟨j, hj, htable⟩
      rw [htables] at hphotos
      exact absurd hphotos (by decide)
    · exact .inr (Sql.Query.failsWithout_of_test hfilter rfl (.refl _))
  have hnodup' : q'.introduced.Nodup := by
    rw [hcompiles'.introduced_eq]
    decide
  refine ⟨_, _, q, q', hcompile, hcompile', congrArg Sql.Prepared.text hp, rfl, rfl, ?_, ?_, ?_⟩
  · rw [hcompiles.joins_eq]
    rfl
  · rw [hcompiles'.joins_eq]
    rfl
  · intro db hdb meaning r
    obtain ⟨hkept, hadded⟩ := hrows db hdb meaning r
    exact ⟨hadded hneeds, hkept hways hnodup'⟩

/-! ## §6 Where rows are lost or added -/

/-- The row of an event. -/
def Sql.Row.event : Row
  | "local_identifier" => some "E1"
  | "expedition_id" => some "1"
  | _ => none

/-- The row of its expedition. -/
def Sql.Row.expedition : Row
  | "id" => some "1"
  | _ => none

/-- A database in which there is an event, and nothing below it. -/
def Sql.Database.loneEvent : Database := fun schema table =>
  if schema = some (networkSchema 1) ∧ table = "Event" then [.event]
  else if schema = none ∧ table = expeditionsTable then [.expedition]
  else []

namespace Sql.Database

theorem rowsOf_loneEvent (name : String) :
    loneEvent.rowsOf (entityTable 1 name) = if name = "Event" then [.event] else [] := by
  simp [rowsOf, entityTable, loneEvent]

/-- It fits each schema in which events have no parent. -/
theorem consistent_loneEvent {s : Schema}
    (htop : ∀ e ∈ s.entities, e.name = "Event" → e.parent = none) :
    loneEvent.Consistent s 1 where
  identified e _ := by
    rw [rowsOf_loneEvent]
    split <;> simp
  parents parent child hlink r hr := by
    obtain ⟨e, he, rfl, hparent⟩ := hlink
    rw [rowsOf_loneEvent] at hr
    split at hr
    · rename_i hname
      exact absurd (hparent.symm.trans (htop e he hname)) (by simp)
    · exact absurd hr List.not_mem_nil
  expeditions := List.nodup_singleton _
  covered e _ r hr := by
    rw [rowsOf_loneEvent] at hr
    split at hr
    · obtain rfl := List.mem_singleton.mp hr
      exact ⟨.expedition, List.mem_cons_self, "1", rfl, rfl⟩
    · exact absurd hr List.not_mem_nil
  identifiers := List.nodup_nil

end Sql.Database

/-- Rows can be lost and added. The event without samples is lost when tissues are selected, since
the samples between them are not. And it is added when samples are selected around a condition that
is true of the event alone, since without the selection it is dropped for its lack of samples. -/
theorem Schema.select_need_not_project :
    (∃ scope d d' steps steps', ∃ q q' : Query,
      Compiles .survey "Event" .all {} scope d steps q ∧
      Compiles .survey "Event" (.selectWith ["Tissue"] .all) {} scope d' steps' q' ∧
      Schema.survey.areRelated "Event" "Tissue" = true ∧
      Database.loneEvent.Consistent .survey 1 ∧
      ∀ meaning, q.Returns .loneEvent meaning d.params .event ∧
        ¬ q'.Returns .loneEvent meaning d'.params .event) ∧
    (∃ scope d d' steps steps', ∃ q q' : Query,
      Compiles .fieldwork "Event" .eitherFieldwork {} scope d steps q ∧
      Compiles .fieldwork "Event" (.selectWith ["Sample"] .eitherFieldwork) {} scope d' steps' q' ∧
      Schema.fieldwork.areRelated "Event" "Sample" = true ∧
      Database.loneEvent.Consistent .fieldwork 1 ∧
      ∃ meaning, ¬ q.Returns .loneEvent meaning d.params .event ∧
        q'.Returns .loneEvent meaning d'.params .event) := by
  constructor
  · have hdb : Database.loneEvent.Consistent .survey 1 :=
      Sql.Database.consistent_loneEvent (by decide)
    refine ⟨_, _, _, _, _, _, _, ⟨rfl, rfl, _, _, rfl, rfl, by simp, rfl, rfl, rfl⟩,
      ⟨rfl, rfl, _, _, rfl, rfl, by simp, rfl, rfl, rfl⟩, by decide, hdb, fun meaning => ⟨?_, ?_⟩⟩
    · -- without the selection the event is read from its own table
      exact ⟨by decide, _, List.mem_cons_self, .inl rfl, "Event", List.mem_cons_self, rfl⟩
    · -- no row is left after the samples have been joined
      rintro ⟨-, ρ, hρ, -⟩
      exact absurd hρ List.not_mem_nil
  · have hdb : Database.loneEvent.Consistent .fieldwork 1 :=
      Sql.Database.consistent_loneEvent (by decide)
    refine ⟨_, _, _, _, _, _, _, ⟨rfl, rfl, _, _, rfl, rfl, by simp, rfl, rfl, rfl⟩,
      ⟨rfl, rfl, _, _, rfl, rfl, by simp, rfl, rfl, rfl⟩, by decide, hdb, fun _ _ => some true,
      ?_, ?_⟩
    · -- there is no sample, so the statement of the condition drops the event
      rintro ⟨-, ρ, hρ, -⟩
      exact absurd hρ List.not_mem_nil
    · -- the selection keeps it, and its year makes the clause true
      have hreading : ∀ t t' : Test Nat, IsReading (Condition.or (.test t) (.test t')).tokens
          (.or (.atom t) (.atom t')) := by
        intro t t'
        rw [IsReading, Condition.withoutBlanks_tokens_or]
        exact .or (.factor (.test t)) (.conjunction (.factor (.test t')))
      exact ⟨by decide, _, List.mem_cons_self, .inr ⟨_, hreading _ _, rfl⟩, "Event",
        List.mem_cons_self, rfl⟩

end EntityQuery
