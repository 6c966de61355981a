import EntityQuery.Proofs.Rows.Forked

/-!
# Rows on the lineage of the root

Joins that lead to ancestors of the root neither lose rows of the root nor multiply them. A row has
one parent, one expedition, and one entry at most in the list of identifiers, so each of these joins
extends every row to exactly one (`Join.Single`), and so do all of them together
(`Query.map_rows_eq`). Where expeditions may be missing, rows can be lost, but there is still one at
most (`Query.map_rows_sublist`).

What stands under the name of an ancestor is told without any join: it is the row that one arrives
at by going from each row to its parent (`Database.Climbs`).
-/

namespace EntityQuery

open JoinRequest (IsPlan ofCalls)
open Sql (Database Equation Join Joined JoinsClosed Operand Query Row TableRef)

/-! ## §1 Joins that extend rows to one -/

theorem filter_eq_singleton {α β : Type} {xs : List α} {x : α} {p : α → Bool} (key : α → β)
    (hnodup : (xs.map key).Nodup) (hx : x ∈ xs) (hp : p x = true)
    (hkey : ∀ y ∈ xs, p y = true → key y = key x) : xs.filter p = [x] := by
  have hfilter : (xs.filter p).Nodup := hnodup.of_map.filter p
  -- no element but this one has its key
  apply List.perm_singleton.mp
  rw [List.perm_ext_iff_of_nodup hfilter (List.nodup_singleton x)]
  intro y
  rw [List.mem_filter, List.mem_singleton]
  constructor
  · exact fun ⟨hy, hpy⟩ => List.inj_on_of_nodup_map hnodup hy hx (hkey y hy hpy)
  · rintro rfl
    exact ⟨hx, hp⟩

namespace Sql

variable {db : Database} {q : Query} {j : Join} {ρ ρ' : Joined}

/-- A join extends a joined row to one at most, if its partners agree in a key that tells rows
apart. -/
theorem Join.length_extend_le_one {β : Type} (key : Row → β) (k : β)
    (hnodup : ((db.rowsOf j.table).map key).Nodup)
    (hkey : ∀ r ∈ db.rowsOf j.table, j.isPartner (j.set ρ (some r)) = true → key r = k) :
    (j.extend db ρ).length ≤ 1 := by
  unfold extend
  by_cases hpartner : ∃ r ∈ db.rowsOf j.table, j.isPartner (j.set ρ (some r)) = true
  · obtain ⟨r, hr, hpartner⟩ := hpartner
    have hfilter : (db.rowsOf j.table).filter (fun r => j.isPartner (j.set ρ (some r))) = [r] := by
      apply filter_eq_singleton key hnodup hr hpartner
      exact fun r' hr' hpartner' => (hkey r' hr' hpartner').trans (hkey r hr hpartner).symm
    rw [hfilter]
    cases j.type <;> exact Nat.le_refl 1
  -- without partners, an outer join keeps the row and an inner one drops it
  · have hfilter : (db.rowsOf j.table).filter (fun r => j.isPartner (j.set ρ (some r))) = [] :=
      List.filter_eq_nil_iff.mpr fun r hr hpartner' => hpartner ⟨r, hr, hpartner'⟩
    rw [hfilter]
    cases j.type <;> simp

/-- A join extends a joined row to exactly one. -/
def Join.Single (db : Database) (j : Join) (ρ : Joined) : Prop :=
  (j.extend db ρ).length = 1

/-- It does if it extends it to one at most, and finds a partner or keeps rows without. -/
theorem Join.single_of_length_le_one (hle : (j.extend db ρ).length ≤ 1)
    (htotal : j.type = .left ∨ ∃ r ∈ db.rowsOf j.table, j.isPartner (j.set ρ (some r)) = true) :
    j.Single db ρ := by
  obtain ⟨ρ', hρ'⟩ : ∃ ρ', ρ' ∈ j.extend db ρ := by
    rcases htotal with hleft | ⟨r, hr, hpartner⟩
    · exact exists_extend_of_left hleft ρ
    · exact ⟨_, mem_extend.mpr (.inl ⟨r, hr, hpartner, rfl⟩)⟩
  exact Nat.le_antisymm hle (List.length_pos_of_mem hρ')

/-- Under another name, a join repeats what stands there. -/
theorem Join.map_extend {name : String} (hne : name ≠ j.referenceName) :
    (j.extend db ρ).map (· name) = List.replicate (j.extend db ρ).length (ρ name) := by
  rw [List.map_eq_replicate_iff]
  exact fun ρ' hρ' => (mem_extend_iff_settled.mp hρ').2 name hne

/-! ## §2 Rows of the first table -/

/-- A relation between lists that is kept when lists are put one after the other. -/
structure ListCongruence {β : Type} (R : List β → List β → Prop) : Prop where
  refl : ∀ xs, R xs xs
  trans : ∀ xs ys zs, R xs ys → R ys zs → R xs zs
  append : ∀ xs xs' ys ys', R xs xs' → R ys ys' → R (xs ++ ys) (xs' ++ ys')

namespace ListCongruence

variable {α β : Type} {R : List β → List β → Prop}

theorem eq : ListCongruence (@Eq (List β)) where
  refl _ := rfl
  trans _ _ _ := Eq.trans
  append _ _ _ _ h h' := congrArg₂ (· ++ ·) h h'

theorem sublist : ListCongruence (@List.Sublist β) where
  refl := List.Sublist.refl
  trans _ _ _ := List.Sublist.trans
  append _ _ _ _ := List.Sublist.append

theorem flatMap (h : ListCongruence R) {f g : α → List β} {xs : List α}
    (hfg : ∀ x ∈ xs, R (f x) (g x)) : R (xs.flatMap f) (xs.flatMap g) := by
  induction xs with
  | nil => exact h.refl []
  | cons x xs ih =>
    rw [List.flatMap_cons, List.flatMap_cons]
    apply h.append
    · exact hfg x List.mem_cons_self
    · exact ih fun y hy => hfg y (List.mem_cons_of_mem _ hy)

end ListCongruence

section FirstTable

variable {t : TableRef} (hsource : q.source = some t) (hclosed : JoinsClosed q.start q.joins)
  (hnodup : q.introduced.Nodup)

include hsource hclosed hnodup

/-- How the rows of a statement relate to those of the table that it starts from, if each join of a
row relates to that row in this way. -/
theorem Query.map_rows {R : List (Option Row) → List (Option Row) → Prop} (hR : ListCongruence R)
    (hextend : ∀ before j after, q.joins = before ++ j :: after →
      ∀ ρ, (∃ r ∈ db.rowsOf t, ρ t.referenceName = some r) →
        (∀ j₁ ∈ before, j₁.Settled db ρ) →
          ∀ r, R (List.replicate (j.extend db ρ).length r) [r]) :
    R ((q.rows db).map (· t.referenceName)) ((db.rowsOf t).map some) := by
  -- by induction on the joins that have been made
  have hprefix : ∀ joins after, q.joins = joins ++ after →
      R ((Query.rows db { q with joins }).map (· t.referenceName)) ((db.rowsOf t).map some) := by
    intro joins
    induction joins using List.reverseRecOn with
    | nil =>
      intro _ _
      have hstart : (Query.rows db { q with joins := [] }).map (· t.referenceName) =
          (db.rowsOf t).map some := by
        simp [rows, hsource, joinAll, ← List.map_eq_flatMap]
      rw [hstart]
      exact hR.refl _
    | append_singleton joins j ih =>
      intro after heq
      rw [List.append_assoc, List.singleton_append] at heq
      have hj : j ∈ q.joins := heq ▸ List.mem_append_right _ List.mem_cons_self
      have hne : t.referenceName ≠ j.referenceName := by
        intro hsame
        have hstart : t.referenceName ∈ q.start := by simp [start, hsource]
        exact (List.nodup_append.mp hnodup).2.2 _ hstart _ (List.mem_map_of_mem hj) hsame
      refine hR.trans _ ((Query.rows db { q with joins }).map (· t.referenceName)) _ ?_ (ih _ heq)
      rw [rows_concat, List.map_flatMap, List.map_eq_flatMap]
      apply hR.flatMap
      intro ρ hρ
      obtain ⟨hfirst, hbefore⟩ := settled_of_mem_rows hsource hclosed hnodup heq hρ
      rw [Join.map_extend hne]
      exact hextend joins j after heq ρ hfirst hbefore _
  exact hprefix q.joins [] (List.append_nil _).symm

/-- If each join extends rows to exactly one, there is one row for each row of the first table. -/
theorem Query.map_rows_eq (hsingle : ∀ before j after, q.joins = before ++ j :: after →
      ∀ ρ, (∃ r ∈ db.rowsOf t, ρ t.referenceName = some r) →
        (∀ j₁ ∈ before, j₁.Settled db ρ) → j.Single db ρ) :
    (q.rows db).map (· t.referenceName) = (db.rowsOf t).map some := by
  apply map_rows hsource hclosed hnodup .eq
  intro before j after heq ρ hfirst hbefore r
  rw [hsingle before j after heq ρ hfirst hbefore]
  rfl

/-- If each join extends rows to one at most, there is one row at most. -/
theorem Query.map_rows_sublist (hle : ∀ before j after, q.joins = before ++ j :: after →
      ∀ ρ, (∃ r ∈ db.rowsOf t, ρ t.referenceName = some r) →
        (∀ j₁ ∈ before, j₁.Settled db ρ) → (j.extend db ρ).length ≤ 1) :
    ((q.rows db).map (· t.referenceName)).Sublist ((db.rowsOf t).map some) := by
  apply map_rows hsource hclosed hnodup .sublist
  intro before j after heq ρ hfirst hbefore r
  exact (List.replicate_sublist_replicate r).mpr (hle before j after heq ρ hfirst hbefore)

end FirstTable

end Sql

/-! ## §3 Joins with one partner at most -/

theorem identifiersName_ne (owner : String) : owner ≠ identifiersName owner := by
  intro h
  -- the name of the identifiers is longer
  have hlength := congrArg String.length h
  simp only [identifiersName, String.length_append] at hlength
  have hpositive : 0 < "_".length := by decide
  omega

namespace JoinStep

variable {s : Schema} {db : Database} {ρ : Joined} {network : Nat}

/-- The identifiers of an entity that are partners of its row agree in their expedition and in the
entity that they name. -/
theorem key_of_isPartner_identifiers {owner : String}
    (h : ((identifiers owner).toJoin network).isPartner ρ = true) :
    ∃ row, ρ (identifiersName owner) = some row ∧
      (row "expedition_id", row "concept_alias") =
        ((ρ owner).bind (· "expedition_id"), some owner) := by
  have hequations : Sql.equations? ((identifiers owner).toJoin network).on =
      some [⟨identifiersName owner, "expedition_id", .column owner "expedition_id"⟩,
        ⟨identifiersName owner, "concept_alias", .literal owner⟩] := rfl
  simp only [Join.isPartner, hequations, Option.any_some, List.all_cons, List.all_nil,
    Bool.and_true, Bool.and_eq_true, Equation.holds_eq_true_iff, Operand.value?,
    Option.bind_eq_some_iff] at h
  obtain ⟨⟨expedition, ⟨row, hrow, hexp⟩, own, hown, hexp'⟩, _, ⟨row', hrow', halias⟩, heq⟩ := h
  -- the two equations are about one row of the identifiers
  obtain rfl : row = row' := Option.some.inj (hrow.symm.trans hrow')
  exact ⟨row, hrow, by rw [hexp, halias, hown, ← heq, Option.bind_some, hexp']⟩

/-- Rows of the root and of the expeditions are partners if the one belongs to the other. -/
theorem isPartner_expeditions_iff {root : String} :
    ((expeditions root).toJoin network).isPartner ρ = true ↔
      ∃ row expedition, ρ root = some row ∧ ρ expeditionsTable = some expedition ∧
        row.BelongsTo expedition := by
  have hequations : Sql.equations? ((expeditions root).toJoin network).on =
      some [⟨expeditionsTable, "id", .column root "expedition_id"⟩] := rfl
  simp only [Join.isPartner, hequations, Option.any_some, List.all_cons, List.all_nil,
    Bool.and_true, Equation.holds_eq_true_iff, Operand.value?, Option.bind_eq_some_iff,
    Row.BelongsTo]
  constructor
  · rintro ⟨id, ⟨expedition, hexp, hid⟩, row, hrow, hid'⟩
    exact ⟨row, expedition, hrow, hexp, id, hid, hid'⟩
  · rintro ⟨row, expedition, hrow, hexp, id, hid, hid'⟩
    exact ⟨id, ⟨expedition, hexp, hid⟩, row, hrow, hid'⟩

/-- A hop up from a row finds exactly one partner. -/
theorem single_up {hop : Hop} (hdb : db.Keyed s network)
    (hlink : s.IsParent hop.parent hop.child) (htable : hop.table = hop.parent) {child : Row}
    (hchild : child ∈ db.rowsOf (entityTable network hop.child)) (hρ : ρ hop.child = some child) :
    ((entity hop).toJoin network).Single db ρ := by
  have hname : ((entity hop).toJoin network).referenceName = hop.parent := htable
  obtain ⟨e, he, hparent⟩ := hlink.exists_mem
  have hidentified := hdb.identified e he
  rw [hparent, ← htable] at hidentified
  -- the child names the identifier and the expedition of its parent
  apply Join.single_of_length_le_one
  · apply Join.length_extend_le_one _ (child "expedition_id", child "parent_identifier") hidentified
    intro r hr hpartner
    obtain ⟨child', parent', hchild', hparent', key, expedition, hkey, hkey', hexp, hexp'⟩ :=
      isPartner_entity_iff.mp hpartner
    rw [Join.set_of_ne (hname ▸ hlink.ne.symm), hρ] at hchild'
    rw [← hname, Join.set_self] at hparent'
    obtain rfl := Option.some.inj hchild'
    obtain rfl := Option.some.inj hparent'
    rw [hkey, hkey', hexp, hexp']
  · exact .inr (exists_partner hdb hlink htable hchild hρ)

/-- The join of identifiers adds no rows and drops none. -/
theorem single_identifiers (hdb : db.Keyed s network) (owner : String) :
    ((identifiers owner).toJoin network).Single db ρ := by
  have hname : ((identifiers owner).toJoin network).referenceName = identifiersName owner := rfl
  apply Join.single_of_length_le_one
  · apply Join.length_extend_le_one _ ((ρ owner).bind (· "expedition_id"), some owner)
      hdb.identifiers
    intro r hr hpartner
    obtain ⟨row, hrow, hkey⟩ := key_of_isPartner_identifiers hpartner
    rw [← hname, Join.set_self] at hrow
    rw [Join.set_of_ne (hname ▸ identifiersName_ne owner)] at hkey
    obtain rfl := Option.some.inj hrow
    exact hkey
  · exact .inl rfl

/-- The join of the expeditions adds none. -/
theorem length_extend_expeditions_le_one {root : String} (hdb : db.Keyed s network)
    (hne : root ≠ expeditionsTable) :
    (((expeditions root).toJoin network).extend db ρ).length ≤ 1 := by
  have hname : ((expeditions root).toJoin network).referenceName = expeditionsTable := rfl
  apply Join.length_extend_le_one _ ((ρ root).bind (· "expedition_id")) hdb.expeditions
  intro r hr hpartner
  obtain ⟨row, expedition, hrow, hexp, id, hid, hid'⟩ := isPartner_expeditions_iff.mp hpartner
  rw [Join.set_of_ne (hname ▸ hne)] at hrow
  rw [← hname, Join.set_self] at hexp
  obtain rfl := Option.some.inj hexp
  rw [hrow, Option.bind_some, hid, hid']

/-- And it drops none, if each row of the root has an expedition. -/
theorem single_expeditions {root : String} (hdb : db.Consistent s network)
    (hroot : s.Declares [root]) {row : Row} (hrow : row ∈ db.rowsOf (entityTable network root))
    (hρ : ρ root = some row) : ((expeditions root).toJoin network).Single db ρ := by
  have hname : ((expeditions root).toJoin network).referenceName = expeditionsTable := rfl
  have hne : root ≠ expeditionsTable := hroot.ne_expeditionsTable _ List.mem_cons_self
  apply Join.single_of_length_le_one (length_extend_expeditions_le_one hdb.toKeyed hne)
  obtain ⟨e, he, rfl⟩ := Schema.declares_singleton.mp hroot
  obtain ⟨expedition, hexp, hbelongs⟩ := hdb.covered e he row hrow
  refine .inr ⟨expedition, hexp, isPartner_expeditions_iff.mpr ⟨row, expedition, ?_, ?_, hbelongs⟩⟩
  · rw [Join.set_of_ne (hname ▸ hne), hρ]
  · rw [← hname, Join.set_self]

end JoinStep

/-! ## §4 Climbing from row to row -/

/-- Climbing from a row of an entity, each time to a row that it is a child of, arrives at a row of
an ancestor. -/
inductive Sql.Database.Climbs (db : Database) (s : Schema) (network : Nat) (start : String)
    (row : Row) : String → Row → Prop
  | start : Climbs db s network start row start row
  | up {child parent : String} {r r' : Row} (h : Climbs db s network start row child r)
      (hlink : s.IsParent parent child) (hmem : r' ∈ db.rowsOf (entityTable network parent))
      (hparent : r.IsChildOf r') : Climbs db s network start row parent r'

namespace Sql.Database.Climbs

variable {s : Schema} {db : Database} {network : Nat} {start name : String} {row r r' : Row}

theorem atOrAbove (h : db.Climbs s network start row name r) : s.AtOrAbove name start := by
  induction h with
  | start => exact .refl start
  | up _ hlink _ _ ih => exact (Schema.AtOrAbove.of_isParent hlink).trans ih

/-- Where keys tell rows apart, it arrives at one row only. -/
theorem unique (hdb : db.Keyed s network) (h : db.Climbs s network start row name r)
    (h' : db.Climbs s network start row name r') : r = r' := by
  induction h generalizing r' with
  | start =>
    cases h' with
    | start => rfl
    | up h' hlink => exact absurd h'.atOrAbove (Schema.AtOrAbove.not_of_isParent hlink)
  | @up child parent r₁ r₂ h hlink hmem hparent ih =>
    cases h' with
    | start => exact absurd h.atOrAbove (Schema.AtOrAbove.not_of_isParent hlink)
    | @up child' _ r₁' _ h' hlink' hmem' hparent' =>
      -- both come from the child on the lineage, and so from one row
      obtain rfl := hlink.child_unique hlink' h.atOrAbove h'.atOrAbove
      obtain rfl := ih h'
      obtain ⟨key, expedition, hkey, hkey₂, hexp, hexp₂⟩ := hparent
      obtain ⟨key', expedition', hkey', hkey₂', hexp', hexp₂'⟩ := hparent'
      obtain ⟨e, he, rfl⟩ := hlink.exists_mem
      apply List.inj_on_of_nodup_map (hdb.identified e he) hmem hmem'
      rw [hkey₂, hkey₂', hexp₂, hexp₂', ← hkey, ← hkey', ← hexp, ← hexp']

end Sql.Database.Climbs

/-! ## §5 Plans on the lineage of the root -/

namespace JoinRequest.IsPlan

variable {s : Schema} {r : JoinRequest} {hops : List Hop} {steps : List JoinStep} {db : Database}
  {ρ : Joined} {network : Nat}

/-- Where the hops are settled, the row of an ancestor is the one that climbing from the row of the
root arrives at. -/
theorem climbs (h : IsPlan s r hops steps)
    (hsettled : ∀ hop ∈ hops, ((JoinStep.entity hop).toJoin network).Settled db ρ) {row : Row}
    (hroot : ρ r.root = some row) {name : String} (habove : s.AtOrAbove name r.root)
    (hmem : name ∈ r.root :: hopTables hops) :
    ∃ r', ρ name = some r' ∧ db.Climbs s network r.root row name r' := by
  -- on the way from the root up to the ancestor
  induction habove using Relation.ReflTransGen.head_induction_on with
  | refl => exact ⟨row, hroot, .start⟩
  | @head name child hlink habove ih =>
    have hne : name ≠ r.root := by
      rintro rfl
      exact Schema.AtOrAbove.not_of_isParent hlink habove
    obtain ⟨hop, hhop, rfl⟩ := List.mem_map.mp ((List.mem_cons.mp hmem).resolve_left hne)
    rcases h.directed hop hhop with ⟨-, htable, hchild⟩ | ⟨hoff, -⟩
    · -- the hop comes from the child on the lineage, where climbing has arrived before
      obtain rfl := (h.link hhop).child_unique (htable ▸ hlink) hchild habove
      have hbefore : hop.child ∈ r.root :: hopTables hops := by
        rcases h.other_end hhop with ⟨heq, -⟩ | ⟨-, hbefore⟩
        · exact absurd (htable.symm.trans heq) (h.link hhop).ne
        · exact hbefore
      obtain ⟨rc, hrc, hclimbs⟩ := ih hbefore
      have hown := hsettled hop hhop
      cases hself : ρ hop.table with
      | none =>
        -- only an outer join leaves a row without partner, and none leads upwards
        have hleft := (h.typed hop hhop).mp (hown.type_eq hself)
        exact absurd ((Schema.AtOrAbove.of_isParent hlink).trans habove) hleft.1
      | some row' =>
        have hrow' : row' ∈ db.rowsOf (entityTable network hop.table) := hown.mem_rowsOf hself
        have hpartner : ((JoinStep.entity hop).toJoin network).isPartner ρ = true := by
          unfold Join.Settled at hown
          rw [JoinStep.referenceName_toJoin, JoinStep.reference, hself] at hown
          exact hown.2
        obtain ⟨rc', r', hrc', hr', hchildOf⟩ := JoinStep.isPartner_entity_iff.mp hpartner
        obtain rfl := Option.some.inj (hrc.symm.trans hrc')
        rw [← htable, hself] at hr'
        obtain rfl := Option.some.inj hr'
        exact ⟨row', rfl, hclimbs.up hlink hrow' hchildOf⟩
    · exact absurd ((Schema.AtOrAbove.of_isParent hlink).trans habove) hoff

/-- If all hops lead to ancestors of the root, each join extends rows to exactly one, apart from
that of the expeditions. -/
theorem single_or_expeditions (h : IsPlan s r hops steps) (hsound : Sound s r)
    (hdb : db.Keyed s network) (hlineage : ∀ hop ∈ hops, s.AtOrAbove hop.table r.root)
    (hnodup : ((steps.map (JoinStep.toJoin network)).map Join.referenceName).Nodup)
    {before after : List Join} {j : Join}
    (heq : steps.map (JoinStep.toJoin network) = before ++ j :: after)
    (hroot : ∃ row ∈ db.rowsOf (entityTable network r.root), ρ r.root = some row)
    (hbefore : ∀ j₁ ∈ before, j₁.Settled db ρ) :
    j.Single db ρ ∨ j = (JoinStep.expeditions r.root).toJoin network := by
  have hj : j ∈ steps.map (JoinStep.toJoin network) :=
    heq ▸ List.mem_append_right _ List.mem_cons_self
  rcases h.mem_joins_iff.mp hj with ⟨hop, hhop, rfl⟩ | ⟨owner, -, rfl⟩ | ⟨-, rfl⟩
  · rcases h.directed hop hhop with ⟨-, htable, hchild⟩ | ⟨hoff, -⟩
    · obtain ⟨row, hrow, hself⟩ := h.exists_child_row (h.closed network hsound) hnodup hhop htable
        hchild heq hroot hbefore
      exact .inl (JoinStep.single_up hdb (h.link hhop) htable hrow hself)
    · exact absurd (hlineage hop hhop) hoff
  · exact .inl (JoinStep.single_identifiers hdb owner)
  · exact .inr rfl

section Statement

variable {q : Query}

/-- The entities that a statement joins are those that the hops lead to. -/
theorem joinsEntity_iff (h : IsPlan s r hops steps)
    (hjoins : q.joins = steps.map (JoinStep.toJoin network)) {name : String} :
    q.JoinsEntity network name ↔ name ∈ hopTables hops := by
  constructor
  · rintro ⟨j, hj, htable⟩
    obtain ⟨hop, hhop, rfl, -⟩ := h.exists_hop_of_table (hjoins ▸ hj) htable
    exact List.mem_map_of_mem hhop
  · intro hname
    obtain ⟨hop, hhop, rfl⟩ := List.mem_map.mp hname
    exact ⟨_, hjoins ▸ h.mem_joins_iff.mpr (.inl ⟨hop, hhop, rfl⟩), rfl⟩

theorem joinsClosed (h : IsPlan s r hops steps) (hsound : Sound s r)
    (hsource : q.source = some (entityTable network r.root))
    (hjoins : q.joins = steps.map (JoinStep.toJoin network)) : JoinsClosed q.start q.joins := by
  have hstart : q.start = [r.root] := by
    rw [Query.start, hsource]
    rfl
  rw [hstart, hjoins]
  exact h.closed network hsound

section Lineage

variable (h : IsPlan s r hops steps) (hsound : Sound s r)
  (hlineage : ∀ hop ∈ hops, s.AtOrAbove hop.table r.root)
  (hsource : q.source = some (entityTable network r.root))
  (hjoins : q.joins = steps.map (JoinStep.toJoin network)) (hnodup : q.introduced.Nodup)

include h hsound hlineage hsource hjoins hnodup

/-- Then a statement with these joins has one row for each row of the root. -/
theorem map_rows_eq (hdb : db.Consistent s network) :
    (q.rows db).map (· r.root) = (db.rowsOf (entityTable network r.root)).map some := by
  have hnames := (List.nodup_append.mp hnodup).2.1
  rw [hjoins] at hnames
  apply Query.map_rows_eq hsource (h.joinsClosed hsound hsource hjoins) hnodup
  intro before j after heq ρ hroot hbefore
  have hcases :=
    h.single_or_expeditions hsound hdb.toKeyed hlineage hnames (hjoins ▸ heq) hroot hbefore
  rcases hcases with hsingle | rfl
  · exact hsingle
  · obtain ⟨row, hrow, hself⟩ := hroot
    exact JoinStep.single_expeditions hdb hsound.root hrow hself

/-- It has one row at most, if rows of the root need not have an expedition. -/
theorem map_rows_sublist (hdb : db.Keyed s network) :
    ((q.rows db).map (· r.root)).Sublist
      ((db.rowsOf (entityTable network r.root)).map some) := by
  have hnames := (List.nodup_append.mp hnodup).2.1
  rw [hjoins] at hnames
  apply Query.map_rows_sublist hsource (h.joinsClosed hsound hsource hjoins) hnodup
  intro before j after heq ρ hroot hbefore
  rcases h.single_or_expeditions hsound hdb hlineage hnames (hjoins ▸ heq) hroot hbefore with
    hsingle | rfl
  · exact hsingle.le
  · have hne := hsound.root.ne_expeditionsTable _ List.mem_cons_self
    exact JoinStep.length_extend_expeditions_le_one hdb hne

end Lineage

/-- And in each of its rows stands under the name of an ancestor what climbing arrives at. -/
theorem climbs_of_mem_rows (h : IsPlan s r hops steps) (hsound : Sound s r)
    (hsource : q.source = some (entityTable network r.root))
    (hjoins : q.joins = steps.map (JoinStep.toJoin network)) (hnodup : q.introduced.Nodup)
    (hρ : ρ ∈ q.rows db) {name : String} (habove : s.AtOrAbove name r.root)
    (hmem : name ∈ hopTables hops) :
    ∃ row r', ρ r.root = some row ∧ ρ name = some r' ∧
      db.Climbs s network r.root row name r' := by
  obtain ⟨⟨row, -, hroot⟩, -, hsettled⟩ :=
    (Query.mem_rows_iff hsource (h.joinsClosed hsound hsource hjoins) hnodup).mp hρ
  have hhops : ∀ hop ∈ hops, ((JoinStep.entity hop).toJoin network).Settled db ρ := by
    intro hop hhop
    apply hsettled
    rw [hjoins]
    exact h.mem_joins_iff.mpr (.inl ⟨hop, hhop, rfl⟩)
  obtain ⟨r', hr', hclimbs⟩ := h.climbs hhops hroot habove (List.mem_cons_of_mem _ hmem)
  exact ⟨row, r', hroot, hr', hclimbs⟩

end Statement

end JoinRequest.IsPlan

/-! ## §6 Requests for ancestors -/

/-- The entities on the path from a root to one of its ancestors are those between the two. -/
theorem Schema.AtOrAbove.onPath_iff {s : Schema} {root target name : String}
    (h : s.AtOrAbove target root) :
    s.OnPath root target name ↔ s.AtOrAbove target name ∧ s.AtOrAbove name root := by
  -- the two meet at the ancestor
  have hmeeting : s.IsMeeting target root target := ⟨h, .refl target, fun _ _ hc => hc⟩
  constructor
  · rintro ⟨meeting, hmeeting', hle, hge⟩
    obtain rfl := hmeeting.unique hmeeting'
    exact ⟨hle, hge.elim id fun hge => hge.trans h⟩
  · exact fun ⟨hle, hge⟩ => ⟨target, hmeeting, hle, .inl hge⟩

/-- Requests for ancestors lead to what lies between the root and an entity that is asked for. -/
theorem JoinRequest.IsPlan.mem_hopTables_ofCalls {s : Schema} {root name : String}
    {calls : List JoinCall} {hops : List Hop} {steps : List JoinStep}
    (h : IsPlan s (ofCalls root calls) hops steps)
    (hcalls : ∀ name ∈ registered calls, s.AtOrAbove name root) :
    name ∈ hopTables hops ↔ name ≠ root ∧ s.AtOrAbove name root ∧
      ∃ target ∈ registered calls, s.AtOrAbove target name := by
  rw [h.tables, root_ofCalls]
  apply and_congr_right
  intro hne
  rw [exists_required_iff hne]
  constructor
  · rintro ⟨target, htarget, hpath⟩
    obtain ⟨hle, hge⟩ := (hcalls target htarget).onPath_iff.mp hpath
    exact ⟨hge, target, htarget, hle⟩
  · rintro ⟨hge, target, htarget, hle⟩
    exact ⟨target, htarget, (hcalls target htarget).onPath_iff.mpr ⟨hle, hge⟩⟩

/-- A request whose entities are in the tree of the root has joins. -/
theorem JoinRequest.Sound.exists_joins {s : Schema} {r : JoinRequest} (h : Sound s r)
    (htree : ∀ target ∈ r.required, s.SameTree r.root target) (network : Nat) :
    ∃ joins, r.joins s network = .ok joins := by
  have hplan := h.plan_spec
  unfold JoinRequest.joins
  cases hsteps : r.plan s with
  | error error =>
    rw [hsteps] at hplan
    obtain ⟨target, htarget, -, hnot⟩ := hplan
    exact absurd (htree target htarget) hnot
  | ok steps => exact ⟨_, rfl⟩

/-- Requests for ancestors of a root, of whatever kind and in whatever order, have joins. They join
the entities from the root up to those that are asked for. If all names are different, a statement
with these joins has one row for each row of the root, in every consistent database; and under the
name of each ancestor stands the row, and the only one, that climbing from the row of the root
arrives at. -/
theorem JoinRequest.joins_up_keep_rows {s : Schema} {root : String} {calls : List JoinCall}
    (network : Nat) (hroot : s.Declares [root])
    (hcalls : ∀ name ∈ registered calls, s.AtOrAbove name root) :
    (∃ joins, (ofCalls root calls).joins s network = .ok joins) ∧
    ∀ q : Query, q.source = some (entityTable network root) →
      (ofCalls root calls).joins s network = .ok q.joins →
      (∀ name, q.JoinsEntity network name ↔ name ≠ root ∧ s.AtOrAbove name root ∧
        ∃ target ∈ registered calls, s.AtOrAbove target name) ∧
      (q.introduced.Nodup → ∀ db : Database, db.Consistent s network →
        (q.rows db).map (· root) = (db.rowsOf (entityTable network root)).map some ∧
        ∀ ρ ∈ q.rows db, ∀ name, q.JoinsEntity network name →
          ∃ row r, ρ root = some row ∧ ρ name = some r ∧
            ∀ r', db.Climbs s network root row name r' ↔ r' = r) := by
  have hdeclares : s.Declares (registered calls) := fun name hname =>
    Schema.declares_singleton.mp ((hcalls name hname).declares hroot)
  have hsound := Sound.ofCalls hroot hdeclares
  have hrequired : ∀ target ∈ (ofCalls root calls).required, s.AtOrAbove target root :=
    fun target htarget => hcalls target ((mem_required_ofCalls root).mp htarget).2
  refine ⟨hsound.exists_joins ?_ network, ?_⟩
  · intro target htarget
    rw [root_ofCalls]
    exact ⟨target, hrequired target htarget, .refl target⟩
  intro q hsource hjoins
  obtain ⟨hops, steps, hplan, hq⟩ := hsound.exists_isPlan hjoins
  have htables : ∀ name, name ∈ hopTables hops ↔ name ≠ root ∧ s.AtOrAbove name root ∧
      ∃ target ∈ registered calls, s.AtOrAbove target name :=
    fun name => hplan.mem_hopTables_ofCalls hcalls
  have hlineage : ∀ hop ∈ hops, s.AtOrAbove hop.table (ofCalls root calls).root := by
    intro hop hhop
    rw [root_ofCalls]
    exact ((htables hop.table).mp (List.mem_map_of_mem hhop)).2.1
  have hsource' : q.source = some (entityTable network (ofCalls root calls).root) := by
    rwa [root_ofCalls]
  refine ⟨fun name => (hplan.joinsEntity_iff hq).trans (htables name), ?_⟩
  intro hnodup db hdb
  constructor
  · have hrows := hplan.map_rows_eq hsound hlineage hsource' hq hnodup hdb
    rwa [root_ofCalls] at hrows
  · intro ρ hρ name hname
    have hmem := (hplan.joinsEntity_iff hq).mp hname
    have habove := ((htables name).mp hmem).2.1
    rw [← root_ofCalls root] at habove
    obtain ⟨row, r, hrow, hr, hclimbs⟩ :=
      hplan.climbs_of_mem_rows hsound hsource' hq hnodup hρ habove hmem
    rw [root_ofCalls] at hrow hclimbs
    refine ⟨row, r, hrow, hr, fun r' => ⟨fun hclimbs' => hclimbs'.unique hdb.toKeyed hclimbs, ?_⟩⟩
    rintro rfl
    exact hclimbs

/-- A request on tissues for the events above them and for the tissues themselves. -/
def lineageCalls : List JoinCall :=
  [.select "Event", .requireExpeditions, .require "Tissue"]

/-- Two tissues of one sample are both kept, each with its event, though samples were not asked
for. -/
theorem JoinRequest.joins_up_keep_rows_survey :
    ∃ q : Query, q.source = some (entityTable 1 "Tissue") ∧
      (ofCalls "Tissue" lineageCalls).joins .survey 1 = .ok q.joins ∧
      q.joins.map (fun j => (j.type, j.referenceName)) =
        [(.inner, "Sample"), (.inner, "Event"), (.left, "Tissue_entity_identifiers"),
          (.left, "Event_entity_identifiers"), (.inner, "expeditions")] ∧
      q.introduced.Nodup ∧ (Database.forked .survey 1 "Tissue").Consistent .survey 1 ∧
      (q.rows (.forked .survey 1 "Tissue")).map (· "Tissue") =
        [some (.record "1" "1"), some (.record "2" "1")] ∧
      ∀ ρ ∈ q.rows (.forked .survey 1 "Tissue"), ∃ row r, ρ "Tissue" = some row ∧
        ρ "Event" = some r ∧
        ∀ r', (Database.forked .survey 1 "Tissue").Climbs .survey 1 "Tissue" row "Event" r' ↔
          r' = r := by
  have hroot : Schema.survey.Declares ["Tissue"] := by
    unfold Schema.Declares
    decide
  have hsample : Schema.survey.IsParent "Sample" "Tissue" :=
    ⟨_, List.mem_cons_of_mem _ List.mem_cons_self, rfl, rfl⟩
  have hevent : Schema.survey.IsParent "Event" "Sample" :=
    ⟨_, List.mem_append_right [_, _, _] List.mem_cons_self, rfl, rfl⟩
  have hcalls : ∀ name ∈ registered lineageCalls, Schema.survey.AtOrAbove name "Tissue" := by
    intro name hname
    rcases List.mem_pair.mp hname with rfl | rfl
    · exact (Schema.AtOrAbove.of_isParent hevent).tail hsample
    · exact .refl _
  obtain ⟨⟨joins, hjoins⟩, hrows⟩ := joins_up_keep_rows 1 hroot hcalls
  have hnames : joins.map (fun j => (j.type, j.referenceName)) = _ :=
    congrArg (List.map fun j => (j.type, j.referenceName)) (Except.ok.inj hjoins).symm
  obtain ⟨hentity, hkept⟩ := hrows { source := some (entityTable 1 "Tissue"), joins } rfl hjoins
  have hnodup : ("Tissue" :: joins.map Join.referenceName).Nodup := by
    rw [← Except.ok.inj hjoins]
    decide
  have hdb := Sql.Database.consistent_forked .survey 1 "Tissue"
  obtain ⟨hmap, hclimbs⟩ := hkept hnodup _ hdb
  refine ⟨{ source := some (entityTable 1 "Tissue"), joins }, rfl, hjoins, hnames, hnodup, hdb,
    hmap, fun ρ hρ => hclimbs ρ hρ "Event" ?_⟩
  exact (hentity "Event").mpr ⟨by decide, hcalls _ List.mem_cons_self, "Event", List.mem_cons_self,
    .refl _⟩

end EntityQuery
