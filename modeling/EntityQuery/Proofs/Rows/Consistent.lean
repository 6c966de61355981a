import EntityQuery.Proofs.ClosedStatement
import EntityQuery.Proofs.Joins.Directions
import EntityQuery.Proofs.Rows.Widening

/-!
# Rows of consistent databases

In a database that fits a schema, every row of a child has a row of its parent in the same
expedition. So a hop up from a row always finds a partner (`exists_partner`). A hop down need not
find one, and where a row is missing on the way down, all rows below it are missing as well
(`IsPlan.missing_below`).
-/

namespace EntityQuery

open Sql (Database Equation Join Joined JoinsClosed Operand Row)

/-! ## §1 Databases that fit a schema -/

/-- A row is a child of another one: it holds its identifier, and both are of one expedition. -/
def Sql.Row.IsChildOf (child parent : Row) : Prop :=
  ∃ key expedition, child "parent_identifier" = some key ∧ parent "local_identifier" = some key ∧
    child "expedition_id" = some expedition ∧ parent "expedition_id" = some expedition

/-- A row belongs to a row of the expeditions. -/
def Sql.Row.BelongsTo (row expedition : Row) : Prop :=
  ∃ id, expedition "id" = some id ∧ row "expedition_id" = some id

/-- What holds of the tables that the statements on a schema read if their keys and the parent links
are kept. A row may be of an expedition that is not there. -/
structure Sql.Database.Keyed (db : Database) (s : Schema) (network : Nat) : Prop where
  /-- Rows of an entity are told apart by their expeditions and identifiers. -/
  identified : ∀ e ∈ s.entities, ((db.rowsOf (entityTable network e.name)).map fun r =>
    (r "expedition_id", r "local_identifier")).Nodup
  parents : ∀ parent child, s.IsParent parent child →
    ∀ r ∈ db.rowsOf (entityTable network child),
      ∃ r' ∈ db.rowsOf (entityTable network parent), r.IsChildOf r'
  expeditions : ((db.rowsOf ⟨none, expeditionsTable, none⟩).map fun r => r "id").Nodup
  identifiers : ((db.rowsOf ⟨none, identifiersTable, none⟩).map fun r =>
    (r "expedition_id", r "concept_alias")).Nodup

/-- What holds of these tables if every row is of an expedition that is there, too. -/
structure Sql.Database.Consistent (db : Database) (s : Schema) (network : Nat) : Prop
    extends db.Keyed s network where
  covered : ∀ e ∈ s.entities, ∀ r ∈ db.rowsOf (entityTable network e.name),
    ∃ r' ∈ db.rowsOf ⟨none, expeditionsTable, none⟩, r.BelongsTo r'

/-! ## §2 Partners along a hop -/

section Hops

variable {db : Database} {ρ : Joined} {hop : Hop} {network : Nat}

theorem Sql.Equation.holds_eq_true_iff {eq : Equation} : eq.holds ρ = true ↔
    ∃ value, (Operand.column eq.table eq.name).value? ρ = some value ∧
      eq.right.value? ρ = some value := by
  unfold holds
  cases (Operand.column eq.table eq.name).value? ρ with
  | none => simp
  | some left =>
    cases eq.right.value? ρ with
    | none => simp
    | some right =>
      simp only [beq_iff_eq, Option.some.injEq, exists_eq_left']
      exact eq_comm

/-- Rows are partners along a hop if the one is a child of the other. -/
theorem JoinStep.isPartner_entity_iff : ((entity hop).toJoin network).isPartner ρ = true ↔
    ∃ child parent, ρ hop.child = some child ∧ ρ hop.parent = some parent ∧
      child.IsChildOf parent := by
  have hequations : Sql.equations? ((entity hop).toJoin network).on =
      some [⟨hop.child, "parent_identifier", .column hop.parent "local_identifier"⟩,
        ⟨hop.child, "expedition_id", .column hop.parent "expedition_id"⟩] := rfl
  simp only [Join.isPartner, hequations, Option.any_some, List.all_cons, List.all_nil,
    Bool.and_true, Bool.and_eq_true, Equation.holds_eq_true_iff, Operand.value?,
    Option.bind_eq_some_iff, Row.IsChildOf]
  constructor
  · rintro ⟨⟨key, ⟨child, hchild, hkey⟩, parent, hparent, hkey'⟩,
      expedition, ⟨child', hchild', hexp⟩, parent', hparent', hexp'⟩
    obtain rfl : child = child' := Option.some.inj (hchild.symm.trans hchild')
    obtain rfl : parent = parent' := Option.some.inj (hparent.symm.trans hparent')
    exact ⟨child, parent, hchild, hparent, key, expedition, hkey, hkey', hexp, hexp'⟩
  · rintro ⟨child, parent, hchild, hparent, key, expedition, hkey, hkey', hexp, hexp'⟩
    exact ⟨⟨key, ⟨child, hchild, hkey⟩, parent, hparent, hkey'⟩,
      expedition, ⟨child, hchild, hexp⟩, parent, hparent, hexp'⟩

/-- A hop up from a row finds a partner. -/
theorem exists_partner {s : Schema} (hdb : db.Keyed s network)
    (hlink : s.IsParent hop.parent hop.child) (htable : hop.table = hop.parent) {child : Row}
    (hchild : child ∈ db.rowsOf (entityTable network hop.child)) (hρ : ρ hop.child = some child) :
    ∃ r ∈ db.rowsOf ((JoinStep.entity hop).toJoin network).table,
      ((JoinStep.entity hop).toJoin network).isPartner
        (((JoinStep.entity hop).toJoin network).set ρ (some r)) := by
  obtain ⟨parent, hparent, hpartner⟩ := hdb.parents _ _ hlink child hchild
  rw [← htable] at hparent
  have hname : ((JoinStep.entity hop).toJoin network).referenceName = hop.parent := htable
  refine ⟨parent, hparent, JoinStep.isPartner_entity_iff.mpr ⟨child, parent, ?_, ?_, hpartner⟩⟩
  · rw [Join.set_of_ne (hname ▸ hlink.ne.symm), hρ]
  · rw [← hname, Join.set_self]

/-- Where no row of the parent stands, a hop finds none. -/
theorem missing_of_parent_missing
    (hsettled : ((JoinStep.entity hop).toJoin network).Settled db ρ)
    (hmissing : ρ hop.parent = none) : ρ hop.table = none := by
  have hname : ((JoinStep.entity hop).toJoin network).referenceName = hop.table := rfl
  unfold Join.Settled at hsettled
  rw [hname] at hsettled
  cases hself : ρ hop.table with
  | none => rfl
  | some r =>
    rw [hself] at hsettled
    obtain ⟨_, _, -, hparent, -⟩ := JoinStep.isPartner_entity_iff.mp hsettled.2
    exact absurd (hparent.symm.trans hmissing) (Option.some_ne_none _)

end Hops

/-! ## §3 Rows of plans -/

namespace JoinRequest.IsPlan

variable {s : Schema} {r : JoinRequest} {hops : List Hop} {steps : List JoinStep} {hop : Hop}

/-- The joins of a plan: those of its hops, of identifiers, and of the expeditions. -/
theorem mem_joins_iff (h : IsPlan s r hops steps) {network : Nat} {j : Join} :
    j ∈ steps.map (JoinStep.toJoin network) ↔
      (∃ hop ∈ hops, (JoinStep.entity hop).toJoin network = j) ∨
      (∃ owner ∈ r.root :: r.selection s, (JoinStep.identifiers owner).toJoin network = j) ∨
      r.expeditions = true ∧ (JoinStep.expeditions r.root).toJoin network = j := by
  have hlast : j ∈ (if r.expeditions then [JoinStep.expeditions r.root] else []).map
      (JoinStep.toJoin network) ↔
        r.expeditions = true ∧ (JoinStep.expeditions r.root).toJoin network = j := by
    split <;> simp [*, eq_comm]
  rw [h.steps, List.map_append, List.map_append, List.mem_append, List.mem_append, hlast, or_assoc]
  simp only [List.map_map, List.mem_map, Function.comp_apply]

/-- A join of the table of an entity is that of a hop. -/
theorem exists_hop_of_table (h : IsPlan s r hops steps) {network : Nat} {j : Join}
    (hj : j ∈ steps.map (JoinStep.toJoin network)) {name : String}
    (htable : j.table = entityTable network name) :
    ∃ hop ∈ hops, hop.table = name ∧ (JoinStep.entity hop).toJoin network = j := by
  -- the other tables lie in no network
  rcases h.mem_joins_iff.mp hj with ⟨hop, hhop, rfl⟩ | ⟨owner, -, rfl⟩ | ⟨-, rfl⟩
  · exact ⟨hop, hhop, congrArg Sql.TableRef.table htable, rfl⟩
  · exact absurd (congrArg Sql.TableRef.schema htable) (by simp [JoinStep.toJoin, entityTable])
  · exact absurd (congrArg Sql.TableRef.schema htable) (by simp [JoinStep.toJoin, entityTable])

/-- The end of a hop that is not its table is the root or the table of another hop before it. -/
theorem other_end (h : IsPlan s r hops steps) (hhop : hop ∈ hops) :
    hop.table = hop.child ∧ hop.parent ∈ r.root :: hopTables hops ∨
      hop.table = hop.parent ∧ hop.child ∈ r.root :: hopTables hops := by
  obtain ⟨before, after, rfl⟩ := List.append_of_mem hhop
  have hbefore : [r.root] ++ hopTables before ⊆
      r.root :: hopTables (before ++ hop :: after) := by
    rw [List.singleton_append, hopTables, hopTables, List.map_append]
    exact List.cons_subset_cons _ (List.subset_append_left _ _)
  exact (h.connected.extends_of_eq_append rfl).ends.imp (And.imp_right (@hbefore _))
    (And.imp_right (@hbefore _))

/-- Off the lineage of the root, rows are missing below a missing one. -/
theorem missing_below (h : IsPlan s r hops steps) {db : Database} {ρ : Joined} {network : Nat}
    (hsettled : ∀ hop ∈ hops, ((JoinStep.entity hop).toJoin network).Settled db ρ)
    {upper lower : String} (habove : s.AtOrAbove upper lower) (hoff : ¬ s.AtOrAbove upper r.root)
    (hmem : lower ∈ hopTables hops) (hmissing : ρ upper = none) : ρ lower = none := by
  -- on the way down from the upper one
  induction habove with
  | refl => exact hmissing
  | @tail parent child habove hlink ih =>
    obtain ⟨hop, hhop, rfl⟩ := List.mem_map.mp hmem
    rcases h.directed hop hhop with ⟨hlineage, -⟩ | ⟨-, hchild⟩
    · exact absurd ((habove.tail hlink).trans hlineage) hoff
    · obtain rfl : parent = hop.parent := hlink.unique (hchild ▸ h.link hhop)
      apply missing_of_parent_missing (hsettled hop hhop)
      -- the parent is joined, as it is not the root
      rcases h.other_end hhop with ⟨-, hparent⟩ | ⟨hparent, -⟩
      · rcases List.mem_cons.mp hparent with heq | hparent
        · exact absurd (heq ▸ habove) hoff
        · exact ih hparent
      · exact absurd (hchild.symm.trans hparent) (h.link hhop).ne.symm

/-- A hop up is made from a row, if the joins before it are settled. -/
theorem exists_child_row (h : IsPlan s r hops steps) {db : Database} {ρ : Joined} {network : Nat}
    (hclosed : JoinsClosed [r.root] (steps.map (JoinStep.toJoin network)))
    (hnodup : ((steps.map (JoinStep.toJoin network)).map Join.referenceName).Nodup)
    (hhop : hop ∈ hops) (htable : hop.table = hop.parent) (habove : s.AtOrAbove hop.child r.root)
    {before after : List Join} (heq : steps.map (JoinStep.toJoin network) =
      before ++ (JoinStep.entity hop).toJoin network :: after)
    (hroot : ∃ row ∈ db.rowsOf (entityTable network r.root), ρ r.root = some row)
    (hbefore : ∀ j ∈ before, j.Settled db ρ) :
    ∃ row ∈ db.rowsOf (entityTable network hop.child), ρ hop.child = some row := by
  by_cases hchild : hop.child = r.root
  · rwa [hchild]
  · -- the child is joined along another hop, and before this one
    obtain ⟨first, hfirst, hname⟩ : ∃ first ∈ hops, first.table = hop.child := by
      rcases h.other_end hhop with ⟨heq, -⟩ | ⟨-, hmem⟩
      · exact absurd (heq.symm.trans htable) (h.link hhop).ne.symm
      · exact List.mem_map.mp ((List.mem_cons.mp hmem).resolve_left hchild)
    have hread : hop.child ∈ hop.table :: ([r.root] ++ before.map Join.referenceName) := by
      apply hclosed.reads_subset heq
      rw [JoinStep.tables_on_toJoin]
      exact List.mem_cons_self
    have hmem : hop.child ∈ before.map Join.referenceName := by
      simpa [hchild, htable, (h.link hhop).ne.symm] using hread
    obtain ⟨j, hj, hjname⟩ := List.mem_map.mp hmem
    obtain rfl : j = (JoinStep.entity first).toJoin network := by
      have hjoin : j ∈ steps.map (JoinStep.toJoin network) := heq ▸ List.mem_append_left _ hj
      have hother : (JoinStep.entity first).toJoin network ∈ steps.map (JoinStep.toJoin network) :=
        h.mem_joins_iff.mpr (.inl ⟨first, hfirst, rfl⟩)
      exact List.inj_on_of_nodup_map hnodup hjoin hother (hjname.trans hname.symm)
    have hsettled := hbefore _ hj
    cases hself : ρ hop.child with
    | some row => exact ⟨row, hname ▸ hsettled.mem_rowsOf (hjname.symm ▸ hself), rfl⟩
    | none =>
      -- up there no row without partner is kept
      have hleft := (h.typed first hfirst).mp (hsettled.type_eq (hjname.symm ▸ hself))
      exact absurd (hname ▸ habove) hleft.1

end JoinRequest.IsPlan

end EntityQuery
