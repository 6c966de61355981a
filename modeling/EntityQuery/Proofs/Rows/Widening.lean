import Mathlib.Data.List.Induction
import Mathlib.Data.List.Nodup
import EntityQuery.Proofs.Rows.Database

/-!
# Statements that join more

A statement that has the joins of another one and some more returns the same rows under two
conditions. No row is lost if those of the new joins that drop rows without partner find a partner
always (`Query.Widens.exists_rows`). And if some of the old joins now keep rows without partner, no
row is added that would not have had one (`Query.Widens.exists_rows_of_kept`).
-/

namespace EntityQuery.Sql

variable {db : Database} {q q' : Query} {ρ ρ' : Joined}

/-! ## §1 Joins one by one -/

theorem joinAll_append (db : Database) (joins more : List Join) (ρ : Joined) :
    joinAll db (joins ++ more) ρ = (joinAll db joins ρ).flatMap (joinAll db more) := by
  induction joins generalizing ρ with
  | nil => simp [joinAll]
  | cons j joins ih =>
    rw [List.cons_append, joinAll, joinAll, List.flatMap_assoc, funext ih]

/-- The last join extends the rows of the others. -/
theorem Query.rows_concat (q : Query) (db : Database) (joins : List Join) (j : Join) :
    { q with joins := joins ++ [j] }.rows db =
      ({ q with joins }.rows db).flatMap (j.extend db) := by
  have hlast : joinAll db [j] = j.extend db := by
    funext ρ
    simp [joinAll]
  simp only [rows, joinAll_append, hlast, List.flatMap_assoc]

theorem Query.mem_rows_concat {joins : List Join} {j : Join} :
    ρ' ∈ { q with joins := joins ++ [j] }.rows db ↔
      ∃ ρ ∈ { q with joins }.rows db, ρ' ∈ j.extend db ρ := by
  rw [rows_concat, List.mem_flatMap]

/-- A join that keeps rows extends every row. -/
theorem Join.exists_extend_of_left {j : Join} (hleft : j.type = .left) (ρ : Joined) :
    ∃ ρ', ρ' ∈ j.extend db ρ := by
  -- whether there is a partner decides which row it is
  by_cases hpartner : ∃ r ∈ db.rowsOf j.table, j.isPartner (j.set ρ (some r)) = true
  · obtain ⟨r, hr, hpartner⟩ := hpartner
    exact ⟨_, mem_extend.mpr (.inl ⟨r, hr, hpartner, rfl⟩)⟩
  · exact ⟨_, mem_extend.mpr (.inr ⟨hleft, fun r hr h => hpartner ⟨r, hr, h⟩, rfl⟩)⟩

theorem JoinsClosed.of_append {present : List String} {joins more : List Join}
    (h : JoinsClosed present (joins ++ more)) : JoinsClosed present joins := by
  induction joins generalizing present with
  | nil => trivial
  | cons j joins ih => exact ⟨h.1, ih h.2⟩

/-- After some of the joins there is a row of the table that the statement starts from, and these
joins are settled. -/
theorem Query.settled_of_mem_rows {t : TableRef} (hsource : q.source = some t)
    (hclosed : JoinsClosed q.start q.joins) (hnodup : q.introduced.Nodup)
    {joins after : List Join} (heq : q.joins = joins ++ after)
    (h : ρ ∈ { q with joins }.rows db) :
    (∃ r ∈ db.rowsOf t, ρ t.referenceName = some r) ∧ ∀ j ∈ joins, j.Settled db ρ := by
  rw [heq] at hclosed
  rw [introduced, heq, List.map_append, ← List.append_assoc] at hnodup
  have hrows := (mem_rows_iff (q := { q with joins }) hsource hclosed.of_append
    (List.nodup_append.mp hnodup).1).mp h
  exact ⟨hrows.1, hrows.2.2⟩

/-! ## §2 Wider statements -/

/-- A statement starts from the same table as another one, has the same WHERE clause, and has all of
its joins, though some that drop rows without partner may keep them now. -/
structure Query.Widens (q q' : Query) : Prop where
  source : q'.source = q.source
  filter : q'.filter = q.filter
  joins : ∀ j ∈ q.joins, ∃ type, { j with type } ∈ q'.joins ∧ (j.type = .left → type = .left)

theorem Join.Settled.of_type {j : Join} {type : JoinType} (h : j.Settled db ρ)
    (htype : ρ j.referenceName = none → j.type = .left → type = .left) :
    { j with type }.Settled db ρ := by
  have hname : { j with type }.referenceName = j.referenceName := rfl
  unfold Settled at h ⊢
  rw [hname]
  -- a row that is there settles the join whatever its type
  cases hself : ρ j.referenceName with
  | some r =>
    rw [hself] at h
    exact h
  | none =>
    rw [hself] at h
    exact ⟨htype hself h.1, h.2⟩

/-- What settles a join of some rows is found again when the join extends rows that are the same
where it reads them. -/
theorem Join.Settled.set_mem_extend {j : Join} (h : j.Settled db ρ)
    (hsame : ∀ table ∈ tables j.on, table ≠ j.referenceName → ρ' table = ρ table) :
    j.set ρ' (ρ j.referenceName) ∈ j.extend db ρ' := by
  refine mem_extend_iff_settled.mpr ⟨h.congr ?_, fun name hname => set_of_ne hname _⟩
  intro table htable
  -- under its own name stands the row that settles the join, and elsewhere nothing differs
  by_cases hself : table = j.referenceName
  · rw [hself, set_self]
  · rw [set_of_ne hself]
    exact (hsame table ((List.mem_cons.mp htable).resolve_left hself) hself).symm

namespace Query.Widens

theorem start_eq (h : q.Widens q') : q'.start = q.start := by
  rw [start, start, h.source]

theorem introduced_subset (h : q.Widens q') : q.introduced ⊆ q'.introduced := by
  rw [introduced, introduced, h.start_eq]
  refine List.append_subset.mpr ⟨List.subset_append_left _ _, ?_⟩
  intro name hname
  obtain ⟨j, hj, rfl⟩ := List.mem_map.mp hname
  obtain ⟨type, hj', -⟩ := h.joins j hj
  exact List.mem_append_right _ (List.mem_map.mpr ⟨_, hj', rfl⟩)

/-- Rows of the wider statement are rows of the other one as well, where each of its joins that
dropped rows without partner has a row. -/
theorem exists_rows_of_kept (h : q.Widens q') {t : TableRef} (hsource : q.source = some t)
    (hclosed : JoinsClosed q.start q.joins) (hnodup : q.introduced.Nodup)
    (hclosed' : JoinsClosed q'.start q'.joins) (hnodup' : q'.introduced.Nodup)
    (hρ' : ρ' ∈ q'.rows db)
    (hkept : ∀ j ∈ q.joins, j.type = .inner → ρ' j.referenceName ≠ none) :
    ∃ ρ ∈ q.rows db, ∀ name ∈ q.introduced, ρ name = ρ' name := by
  classical
  obtain ⟨hstart, -, hsettled⟩ :=
    (mem_rows_iff (h.source.trans hsource) hclosed' hnodup').mp hρ'
  -- the row keeps the names of the first statement and forgets the others
  let ρ : Joined := fun name => if name ∈ q.introduced then ρ' name else none
  have hsame : ∀ name ∈ q.introduced, ρ name = ρ' name := fun name hname => if_pos hname
  have hintroduced : t.referenceName ∈ q.introduced := by
    simp [introduced, start, hsource]
  refine ⟨ρ, (mem_rows_iff hsource hclosed hnodup).mpr ⟨?_, fun name hname => if_neg hname, ?_⟩,
    hsame⟩
  · rwa [hsame _ hintroduced]
  · intro j hj
    obtain ⟨type, hj', -⟩ := h.joins j hj
    have hold : j.Settled db ρ' := (hsettled _ hj').of_type fun hnone _ => by
      cases htype : j.type with
      | inner => exact absurd hnone (hkept j hj htype)
      | left => rfl
    exact hold.congr fun table htable => (hsame table (reads_subset hclosed hj htable)).symm

/-- A join of the wider statement under a name of the other one is one of its joins. -/
theorem exists_join (h : q.Widens q') (hnodup' : q'.introduced.Nodup) {j : Join}
    (hj : j ∈ q'.joins) (hname : j.referenceName ∈ q.introduced) :
    ∃ j₀ ∈ q.joins, ∃ type, j = { j₀ with type } ∧ (j₀.type = .left → type = .left) := by
  rw [introduced, h.start_eq] at hnodup'
  obtain ⟨-, hjoins, hapart⟩ := List.nodup_append.mp hnodup'
  rcases List.mem_append.mp hname with hmem | hmem
  · -- the name is that of the start, which no join has, or that of a join
    exact absurd rfl (hapart _ hmem _ (List.mem_map_of_mem hj))
  · obtain ⟨j₀, hj₀, heq⟩ := List.mem_map.mp hmem
    obtain ⟨type, hj', htype⟩ := h.joins j₀ hj₀
    exact ⟨j₀, hj₀, type, (List.inj_on_of_nodup_map hjoins hj' hj heq).symm, htype⟩

/-- Rows of a statement are rows of the wider one as well, if its new joins find partners or keep
rows without. -/
theorem exists_rows (h : q.Widens q') {t : TableRef} (hsource : q.source = some t)
    (hclosed : JoinsClosed q.start q.joins) (hnodup : q.introduced.Nodup)
    (hclosed' : JoinsClosed q'.start q'.joins) (hnodup' : q'.introduced.Nodup)
    (hρ : ρ ∈ q.rows db)
    (htotal : ∀ before j after, q'.joins = before ++ j :: after →
      j.referenceName ∉ q.introduced → j.type = .inner →
        ∀ ρ₁, (∃ r ∈ db.rowsOf t, ρ₁ t.referenceName = some r) →
          (∀ j₁ ∈ before, j₁.Settled db ρ₁) →
            ∃ r ∈ db.rowsOf j.table, j.isPartner (j.set ρ₁ (some r))) :
    ∃ ρ' ∈ q'.rows db, ∀ name ∈ q.introduced, ρ' name = ρ name := by
  obtain ⟨⟨r, hr, hself⟩, -, hsettled⟩ := (mem_rows_iff hsource hclosed hnodup).mp hρ
  have hstart : q'.start = [t.referenceName] := by simp [start, h.source, hsource]
  -- the joins are gone through in order, and each old one finds what it has found before
  have hprefix : ∀ joins after, q'.joins = joins ++ after →
      ∃ ρ₁ ∈ { q' with joins }.rows db, ∀ name ∈ q'.start ++ joins.map Join.referenceName,
        name ∈ q.introduced → ρ₁ name = ρ name := by
    intro joins
    induction joins using List.reverseRecOn with
    | nil =>
      intro _ _
      refine ⟨Function.update (fun _ => none) t.referenceName (some r), ?_, ?_⟩
      · simpa [rows, h.source, hsource, joinAll] using ⟨r, hr, rfl⟩
      · intro name hname _
        rw [hstart, List.map_nil, List.append_nil, List.mem_singleton] at hname
        rw [hname, Function.update_self, hself]
    | append_singleton joins j ih =>
      intro after heq
      rw [List.append_assoc, List.singleton_append] at heq
      obtain ⟨ρ₁, hρ₁, hsame⟩ := ih _ heq
      have hj : j ∈ q'.joins := heq ▸ List.mem_append_right _ List.mem_cons_self
      have hextend : ∃ ρ₂ ∈ j.extend db ρ₁,
          j.referenceName ∈ q.introduced → ρ₂ j.referenceName = ρ j.referenceName := by
        -- an old join takes the row that it had, a new one keeps the row or finds a partner
        by_cases hold : j.referenceName ∈ q.introduced
        · obtain ⟨j₀, hj₀, type, rfl, htype⟩ := h.exists_join hnodup' hj hold
          have hsettled' := (hsettled j₀ hj₀).of_type fun _ => htype
          refine ⟨_, hsettled'.set_mem_extend ?_, fun _ => Join.set_self _ _ _⟩
          intro table hread hne
          have hbefore := (List.mem_cons.mp (hclosed'.reads_subset heq hread)).resolve_left hne
          exact hsame table hbefore (reads_subset hclosed hj₀ (List.mem_cons_of_mem _ hread))
        · cases htype : j.type with
          | left =>
            obtain ⟨ρ₂, hρ₂⟩ := Join.exists_extend_of_left htype ρ₁
            exact ⟨ρ₂, hρ₂, fun hmem => absurd hmem hold⟩
          | inner =>
            obtain ⟨hfirst, hbefore⟩ :=
              settled_of_mem_rows (h.source.trans hsource) hclosed' hnodup' heq hρ₁
            obtain ⟨r, hr, hpartner⟩ := htotal joins j after heq hold htype ρ₁ hfirst hbefore
            exact ⟨_, Join.mem_extend.mpr (.inl ⟨r, hr, hpartner, rfl⟩),
              fun hmem => absurd hmem hold⟩
      obtain ⟨ρ₂, hρ₂, hself⟩ := hextend
      refine ⟨ρ₂, mem_rows_concat.mpr ⟨ρ₁, hρ₁, hρ₂⟩, ?_⟩
      intro name hname hmem
      -- the join has changed its own name and no other
      by_cases heq' : name = j.referenceName
      · rw [heq', hself (heq' ▸ hmem)]
      · rw [(Join.mem_extend_iff_settled.mp hρ₂).2 name heq']
        refine hsame name ?_ hmem
        simpa [heq'] using hname
  obtain ⟨ρ', hρ', hsame⟩ := hprefix q'.joins [] (List.append_nil _).symm
  exact ⟨ρ', hρ', fun name hname => hsame name (h.introduced_subset hname) hname⟩

end Query.Widens

/-! ## §3 The WHERE clause -/

/-- A WHERE clause is true of rows that are the same where it reads them. -/
theorem Query.Accepts.congr {meaning : Predicate → Row → Option Bool} {p : Params}
    (h : q.Accepts meaning p ρ) (hfilter : q'.filter = q.filter)
    (hsame : ∀ f, IsReading q.filter f → ∀ t ∈ f.atoms, ∀ table ∈ t.table?,
      ρ' table = ρ table) : q'.Accepts meaning p ρ' := by
  unfold Accepts at h ⊢
  rw [hfilter]
  refine h.imp_right ?_
  rintro ⟨f, hf, htrue⟩
  refine ⟨f, hf, ?_⟩
  rw [← htrue]
  apply Formula.truth_congr
  intro t ht
  unfold Test.truth
  cases htable : t.table? with
  | none => rfl
  | some table => exact congrArg (Option.bind · _) (hsame f hf t ht table htable)

end EntityQuery.Sql
