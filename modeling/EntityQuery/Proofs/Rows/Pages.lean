import EntityQuery.Proofs.Rows.Lineage

/-!
# Pages

A statement orders its rows by two columns of the root, so that they can be cut into pages. Rows of
which both agree are put in any order, and in another one for each page. If there are none, the
pages together are the rows of the statement, each once (`Query.perm_pages`).

There are none if all joins lead to ancestors of the root. But where an entity below the root or
beside it is joined, one row of the root is joined with as many rows as there are, and they all
agree in the columns of the root.
-/

namespace EntityQuery

open JoinRequest (IsPlan)
open Sql (Database IsReading Join Joined Operand Params Query Row Test Token tables)

/-! ## §1 Answers in order -/

namespace Sql

/-- The value of a column in a joined row. -/
def columnValue? (ρ : Joined) : List Token → Option String
  | [.name table, .symbol .dot, .name column] => (Operand.column table column).value? ρ
  | _ => none

namespace Query

variable {q : Query} {db : Database} {meaning : Predicate → Row → Option Bool} {p : Params}

/-- What a joined row is ordered by. -/
def orderKeys (q : Query) (ρ : Joined) : List (Option String) :=
  q.orderBy.map (columnValue? ρ)

open Classical in
/-- The rows of a statement that pass its WHERE clause. A statement with two tables of one name is
not accepted by a database and has none. -/
noncomputable def result (q : Query) (db : Database) (meaning : Predicate → Row → Option Bool)
    (p : Params) : List Joined :=
  if q.introduced.Nodup then (q.rows db).filter fun ρ => q.Accepts meaning p ρ else []

/-- A database may answer a statement with some rows: it puts the result into an order of its keys,
with ties in whatever order, and then leaves out the first rows and those that are too many. -/
def MayAnswer (q : Query) (db : Database) (meaning : Predicate → Row → Option Bool) (p : Params)
    (le : List (Option String) → List (Option String) → Prop) (rows : List Joined) : Prop :=
  ∃ ordered : List Joined, ordered.Perm (q.result db meaning p) ∧
    ordered.Pairwise (fun ρ ρ' => le (q.orderKeys ρ) (q.orderKeys ρ')) ∧
    rows = (ordered.drop (q.offset.getD 0)).take (q.limit.getD ordered.length)

/-- The statement for one page of a size. -/
def onPage (q : Query) (size page : Nat) : Query :=
  { q with offset := some (page * size), limit := some size }

theorem mem_result (q : Query) {ρ : Joined} : ρ ∈ q.result db meaning p ↔
    q.introduced.Nodup ∧ ρ ∈ q.rows db ∧ q.Accepts meaning p ρ := by
  unfold result
  split <;> simp_all

theorem result_eq_rows (hnodup : q.introduced.Nodup)
    (haccepts : ∀ ρ ∈ q.rows db, q.Accepts meaning p ρ) : q.result db meaning p = q.rows db := by
  rw [result, if_pos hnodup, List.filter_eq_self]
  simpa only [decide_eq_true_eq] using haccepts

/-- Slices of one size, one after the other, are the beginning of a list. -/
theorem flatMap_slices {α : Type} (xs : List α) (size n : Nat) :
    ((List.range n).flatMap fun k => (xs.drop (k * size)).take size) = xs.take (n * size) := by
  induction n with
  | zero => simp
  -- each slice begins where the ones before it end
  | succ n ih =>
    rw [List.range_succ, List.flatMap_append, ih, List.flatMap_singleton, Nat.succ_mul,
      List.take_add]

/-- Without ties there is one order at most. -/
theorem eq_of_ordered {le : List (Option String) → List (Option String) → Prop}
    (hnodup : ((q.result db meaning p).map q.orderKeys).Nodup)
    (hle : ∀ k k', le k k' → le k' k → k = k') {ordered ordered' : List Joined}
    (hperm : ordered.Perm (q.result db meaning p))
    (hperm' : ordered'.Perm (q.result db meaning p))
    (hordered : ordered.Pairwise fun ρ ρ' => le (q.orderKeys ρ) (q.orderKeys ρ'))
    (hordered' : ordered'.Pairwise fun ρ ρ' => le (q.orderKeys ρ) (q.orderKeys ρ')) :
    ordered = ordered' := by
  -- an antisymmetric order and distinct keys leave a single sorted list
  refine List.Perm.eq_of_pairwise ?_ hordered hordered' (hperm.trans hperm'.symm)
  intro ρ ρ' hρ hρ' hle₁ hle₂
  exact List.inj_on_of_nodup_map hnodup (hperm.mem_iff.mp hρ) (hperm'.mem_iff.mp hρ')
    (hle _ _ hle₁ hle₂)

/-- If the result is two rows with the same keys, two pages of one row may be the same. -/
theorem mayAnswer_twice {ρ ρ' : Joined} {le : List (Option String) → List (Option String) → Prop}
    (hresult : q.result db meaning p = [ρ, ρ']) (hsame : q.orderKeys ρ = q.orderKeys ρ')
    (hle : ∀ k, le k k) :
    (q.onPage 1 0).MayAnswer db meaning p le [ρ] ∧
      (q.onPage 1 1).MayAnswer db meaning p le [ρ] := by
  have hpage : ∀ page, (q.onPage 1 page).result db meaning p = [ρ, ρ'] := fun _ => hresult
  have htie : ∀ page, (q.onPage 1 page).orderKeys ρ = (q.onPage 1 page).orderKeys ρ' :=
    fun _ => hsame
  constructor
  · -- the first page is cut from the rows in their order, the second one from the rows swapped
    refine ⟨[ρ, ρ'], hpage 0 ▸ .refl _, ?_, rfl⟩
    rw [List.pairwise_pair, htie]
    exact hle _
  · refine ⟨[ρ', ρ], hpage 1 ▸ .swap ρ ρ' [], ?_, rfl⟩
    rw [List.pairwise_pair, htie]
    exact hle _

/-- Without ties, pages that are enough for all rows hold each of them once. -/
theorem perm_pages {le : List (Option String) → List (Option String) → Prop}
    (hnodup : ((q.result db meaning p).map q.orderKeys).Nodup)
    (hle : ∀ k k', le k k' → le k' k → k = k') {size n : Nat} {pages : Nat → List Joined}
    (hlength : (q.result db meaning p).length ≤ n * size)
    (hpages : ∀ k < n, (q.onPage size k).MayAnswer db meaning p le (pages k)) :
    ((List.range n).flatMap pages).Perm (q.result db meaning p) := by
  cases n with
  -- without any page there are no rows, by the bound on their number
  | zero =>
    rw [Nat.zero_mul, Nat.le_zero, List.length_eq_zero_iff] at hlength
    rw [hlength]
    rfl
  | succ n =>
    -- all pages are slices of the order that the first one is cut out of
    obtain ⟨ordered, hperm, hordered, -⟩ := hpages 0 (Nat.succ_pos n)
    have hslices : ∀ k ∈ List.range (n + 1), pages k = (ordered.drop (k * size)).take size := by
      intro k hk
      obtain ⟨ordered', hperm', hordered', hslice⟩ := hpages k (List.mem_range.mp hk)
      rw [hslice, eq_of_ordered hnodup hle hperm' hperm hordered' hordered]
      rfl
    rw [List.flatMap_congr hslices, flatMap_slices, List.take_of_length_le]
    · exact hperm
    · rw [hperm.length_eq]
      exact hlength

end Query

end Sql

/-! ## §2 Clauses that can be true -/

namespace Formula

variable {α : Type}

theorem truthAnd_eq_true_iff {x y : Option Bool} :
    truthAnd x y = some true ↔ x = some true ∧ y = some true := by
  rcases x with _ | _ | _ <;> rcases y with _ | _ | _ <;> simp [truthAnd]

theorem truthAnd_eq_false_iff {x y : Option Bool} :
    truthAnd x y = some false ↔ x = some false ∨ y = some false := by
  rcases x with _ | _ | _ <;> rcases y with _ | _ | _ <;> simp [truthAnd]

theorem truthOr_eq_true_iff {x y : Option Bool} :
    truthOr x y = some true ↔ x = some true ∨ y = some true := by
  rcases x with _ | _ | _ <;> rcases y with _ | _ | _ <;> simp [truthOr]

theorem truthOr_eq_false_iff {x y : Option Bool} :
    truthOr x y = some false ↔ x = some false ∧ y = some false := by
  rcases x with _ | _ | _ <;> rcases y with _ | _ | _ <;> simp [truthOr]

/-- A known truth value stays when more becomes known of the atoms. -/
theorem truth_mono {v w : α → Option Bool} {f : Formula α} {b : Bool}
    (h : ∀ a ∈ f.atoms, ∀ b, v a = some b → w a = some b) (htruth : f.truth v = some b) :
    f.truth w = some b := by
  -- for true and for false apart, as a connective may be known by one of its sides alone
  induction f generalizing b with
  | atom a => exact h a List.mem_cons_self b htruth
  | not f ih =>
    obtain ⟨b', hb', rfl⟩ := Option.map_eq_some_iff.mp htruth
    rw [truth, ih h hb']
    rfl
  | and f g ihf ihg =>
    have hf := fun b => @ihf b fun a ha => h a (List.mem_append_left _ ha)
    have hg := fun b => @ihg b fun a ha => h a (List.mem_append_right _ ha)
    rw [truth] at htruth ⊢
    cases b with
    | true => exact truthAnd_eq_true_iff.mpr ((truthAnd_eq_true_iff.mp htruth).imp (hf _) (hg _))
    | false =>
      exact truthAnd_eq_false_iff.mpr ((truthAnd_eq_false_iff.mp htruth).imp (hf _) (hg _))
  | or f g ihf ihg =>
    have hf := fun b => @ihf b fun a ha => h a (List.mem_append_left _ ha)
    have hg := fun b => @ihg b fun a ha => h a (List.mem_append_right _ ha)
    rw [truth] at htruth ⊢
    cases b with
    | true => exact truthOr_eq_true_iff.mpr ((truthOr_eq_true_iff.mp htruth).imp (hf _) (hg _))
    | false => exact truthOr_eq_false_iff.mpr ((truthOr_eq_false_iff.mp htruth).imp (hf _) (hg _))

end Formula

namespace Sql

/-- The WHERE clause of a statement can be true, or there is none: it is true under some truth
values of its tests, the same for all tests that compare the same with the same values. -/
def Query.CanAccept (q : Query) (p : Params) : Prop :=
  q.filter = [] ∨ ∃ f, IsReading q.filter f ∧ ∃ v : Predicate → Bool, v .always = true ∧
    f.truth (fun t => some (v (t.map p.valueOf))) = some true

theorem Test.eq_always_of_table? {t : Test Nat} (h : t.table? = none) : t = .always := by
  cases t <;> first | rfl | exact absurd h (Option.some_ne_none _)

/-- What is known of a test that is made of a joined row, and false where nothing is known. -/
def verdict (meaning : Predicate → Row → Option Bool) (ρ : Joined) (t : Predicate) : Bool :=
  match t.table? with
  | some table => ((ρ table).bind (meaning t)).getD false
  | none => true

theorem verdict_of_truth {meaning : Predicate → Row → Option Bool} {p : Params} {ρ : Joined}
    {t : Test Nat} {b : Bool} (h : t.truth meaning p ρ = some b) :
    verdict meaning ρ (t.map p.valueOf) = b := by
  unfold Test.truth at h
  rw [verdict, Test.table?_map]
  cases htable : t.table? with
  | none =>
    rw [htable] at h
    exact Option.some.inj h
  | some table =>
    rw [htable] at h
    exact congrArg (Option.getD · false) h

variable {q : Query} {p : Params} {ρ : Joined}

/-- A clause that is true of a row can be true. -/
theorem Query.Accepts.canAccept {meaning : Predicate → Row → Option Bool}
    (h : q.Accepts meaning p ρ) : q.CanAccept p := by
  apply h.imp_right
  intro ⟨f, hf, htrue⟩
  -- the tests have in the verdict what they have in the row, as far as that is known
  refine ⟨f, hf, verdict meaning ρ, rfl, Formula.truth_mono ?_ htrue⟩
  intro t _ b hb
  exact congrArg some (verdict_of_truth hb)

/-- A clause that can be true is true, if the tests say so, of all rows that have a row wherever the
clause reads one. -/
theorem Query.CanAccept.exists_meaning (h : q.CanAccept p) : ∃ meaning, ∀ ρ,
    (∀ f, IsReading q.filter f → ∀ t ∈ f.atoms, ∀ table ∈ t.table?, ∃ r, ρ table = some r) →
      q.Accepts meaning p ρ := by
  rcases h with hnil | ⟨f, hf, v, halways, htrue⟩
  · exact ⟨fun _ _ => none, fun _ _ => .inl hnil⟩
  · refine ⟨fun t _ => some (v t), fun ρ hrows => .inr ⟨f, hf, ?_⟩⟩
    -- a test is unknown only where it has no row to read
    rw [← htrue]
    apply Formula.truth_congr
    intro t ht
    unfold Test.truth
    cases htable : t.table? with
    | none =>
      rw [Test.eq_always_of_table? htable]
      exact congrArg some halways.symm
    | some table =>
      obtain ⟨r, hr⟩ := hrows f hf t ht table htable
      simp only [hr, Option.bind_some]

end Sql

/-! ## §3 Rows that fork -/

/-- The joined row of some entities and the expedition, in which the entities that have two rows
have the one with an identifier. -/
def forkedRows (s : Schema) (fork : String) (entities : List String) (key : String) : Joined :=
  fun name =>
    if name = expeditionsTable then some .expedition
    else if name ∈ entities then some (Schema.forkedRow fork name (s.forkedKey fork key name))
    else none

section Rows

variable {s : Schema} {fork key name : String} {entities : List String}

theorem forkedRows_expeditionsTable :
    forkedRows s fork entities key expeditionsTable = some .expedition :=
  if_pos rfl

theorem forkedRows_of_mem (hdeclares : s.Declares entities) (hname : name ∈ entities) :
    forkedRows s fork entities key name =
      some (Schema.forkedRow fork name (s.forkedKey fork key name)) := by
  rw [forkedRows, if_neg (hdeclares.ne_expeditionsTable name hname), if_pos hname]

theorem forkedRows_of_not_mem (hname : name ∉ entities) (hne : name ≠ expeditionsTable) :
    forkedRows s fork entities key name = none := by
  rw [forkedRows, if_neg hne, if_neg hname]

end Rows

namespace Compiles

variable {s : Schema} {root : String} {e : Expression} {o : CompileOptions} {scope : Scope}
  {d : Draft} {steps : List JoinStep} {q : Query} {hops : List Hop}

theorem declares_entities (h : Compiles s root e o scope d steps q)
    (hplan : IsPlan s d.finalJoins hops steps) :
    s.Declares (d.finalJoins.root :: hopTables hops) := by
  intro name hname
  rcases List.mem_cons.mp hname with rfl | hname
  · exact h.sound.root _ List.mem_cons_self
  · exact hplan.declares_hopTables h.sound name hname

/-- These are rows of the statement: the identifiers have no row, and all other joins a partner. -/
theorem forkedRows_mem_rows (h : Compiles s root e o scope d steps q)
    (hplan : IsPlan s d.finalJoins hops steps) (hnodup : q.introduced.Nodup) (fork key : String) :
    forkedRows s fork (d.finalJoins.root :: hopTables hops) key ∈
      q.rows (.forked s o.network fork) := by
  have hdeclares := h.declares_entities hplan
  have hentity : ∀ name ∈ d.finalJoins.root :: hopTables hops,
      forkedRows s fork (d.finalJoins.root :: hopTables hops) key name =
        some (Schema.forkedRow fork name (s.forkedKey fork key name)) :=
    fun name hname => forkedRows_of_mem hdeclares hname
  have hmem : ∀ name, Schema.forkedRow fork name (s.forkedKey fork key name) ∈
      (Database.forked s o.network fork).rowsOf (entityTable o.network name) :=
    fun name => Sql.Database.mem_rowsOf_forked.mpr ⟨_, s.forkedKey_mem fork key name, rfl⟩
  have hroot := hentity _ List.mem_cons_self
  have hapart := hnodup
  rw [h.introduced_eq, hplan.nodup_references_iff h.sound] at hapart
  apply (Query.mem_rows_iff h.source_eq h.closed.joins hnodup).mpr
  refine ⟨?root, ?others, ?joins⟩
  case root =>
    rw [← h.finalJoins_root_eq]
    exact ⟨_, hmem _, hroot⟩
  case others =>
    -- a name that is not introduced is neither that of an entity nor of the expeditions
    intro name hname
    have hexpeditions := h.mem_introduced d.joins.covers_requireExpeditions
    apply forkedRows_of_not_mem
    · rw [h.introduced_eq, hplan.map_reference] at hname
      intro hmem
      apply hname
      rcases List.mem_cons.mp hmem with rfl | hmem
      · exact List.mem_cons_self
      · simp [hmem]
    · rintro rfl
      exact hname hexpeditions
  case joins =>
    intro j hj
    rw [h.joins_eq] at hj
    rcases hplan.mem_joins_iff.mp hj with ⟨hop, hhop, rfl⟩ | ⟨owner, howner, rfl⟩ | ⟨-, rfl⟩
    · have htable : hop.table ∈ d.finalJoins.root :: hopTables hops :=
        List.mem_cons_of_mem _ (List.mem_map_of_mem hhop)
      have hends : hop.child ∈ d.finalJoins.root :: hopTables hops ∧
          hop.parent ∈ d.finalJoins.root :: hopTables hops := by
        rcases hplan.other_end hhop with ⟨heq, hother⟩ | ⟨heq, hother⟩
        · exact ⟨heq ▸ htable, hother⟩
        · exact ⟨hother, heq ▸ htable⟩
      unfold Join.Settled
      rw [JoinStep.referenceName_toJoin, JoinStep.reference, hentity _ htable]
      refine ⟨hmem _, JoinStep.isPartner_entity_iff.mpr ?_⟩
      have hchild := Schema.isChildOf_forkedRow (hplan.link hhop) fork key
      exact ⟨_, _, hentity _ hends.1, hentity _ hends.2, hchild⟩
    · -- no table of an entity has the name that the identifiers are joined under
      have hnone : forkedRows s fork (d.finalJoins.root :: hopTables hops) key
          (identifiersName owner) = none :=
        forkedRows_of_not_mem (fun hmem => hapart owner howner _ hmem rfl)
          (identifiersName_ne_expeditionsTable owner)
      unfold Join.Settled
      rw [JoinStep.referenceName_toJoin, JoinStep.reference, hnone]
      exact ⟨rfl, fun _ hr => absurd hr List.not_mem_nil⟩
    · -- all rows belong to the one expedition
      unfold Join.Settled
      rw [JoinStep.referenceName_toJoin, JoinStep.reference, forkedRows_expeditionsTable]
      refine ⟨List.mem_cons_self, JoinStep.isPartner_expeditions_iff.mpr ?_⟩
      exact ⟨_, _, hroot, forkedRows_expeditionsTable, "1", rfl, rfl⟩

end Compiles

/-! ## §4 Rows without ties -/

namespace Compiles

variable {s : Schema} {root : String} {e : Expression} {o : CompileOptions} {scope : Scope}
  {d : Draft} {steps : List JoinStep} {q : Query} {db : Database}
  {meaning : Predicate → Row → Option Bool} {p : Params} {name : String}

/-- The columns of the root that rows are ordered by. -/
theorem orderKeys_eq (h : Compiles s root e o scope d steps q) (ρ : Joined) :
    q.orderKeys ρ =
      [(ρ root).bind (· "local_identifier"), (ρ root).bind (· "expedition_id")] := by
  obtain ⟨_, _, -, hassembles⟩ := h.assembled
  rw [Query.orderKeys, hassembles.query, ← h.root_eq]
  rfl

/-- If the joined entities all lie above the root, there is one row at most for each row of the
root, and these are told apart. -/
theorem nodup_orderKeys (h : Compiles s root e o scope d steps q)
    (hup : ∀ name, q.JoinsEntity o.network name → s.AtOrAbove name root)
    (hdb : db.Keyed s o.network) : ((q.result db meaning p).map q.orderKeys).Nodup := by
  unfold Query.result
  split
  case isFalse => exact List.nodup_nil
  case isTrue hnodup =>
    obtain ⟨hops, hplan⟩ := h.exists_isPlan
    have hroot := h.finalJoins_root_eq
    have hlineage : ∀ hop ∈ hops, s.AtOrAbove hop.table d.finalJoins.root := by
      intro hop hhop
      rw [hroot]
      exact hup hop.table ((hplan.joinsEntity_iff h.joins_eq).mpr (List.mem_map_of_mem hhop))
    have hrows :=
      hplan.map_rows_sublist h.sound hlineage (hroot ▸ h.source_eq) h.joins_eq hnodup hdb
    rw [hroot] at hrows
    -- the keys of a row are read from its row of the root
    let keys : Option Row → List (Option String) := fun r =>
      [r.bind (· "local_identifier"), r.bind (· "expedition_id")]
    have hkeys : (q.rows db).map q.orderKeys = ((q.rows db).map (· root)).map keys := by
      rw [List.map_map]
      exact List.map_congr_left fun ρ _ => h.orderKeys_eq ρ
    -- rows of the root are told apart by their keys in a keyed database
    have hidentified : (((db.rowsOf (entityTable o.network root)).map some).map keys).Nodup := by
      obtain ⟨root, hmem, rfl⟩ := Schema.declares_singleton.mp (h.root_eq ▸ h.declares_root)
      have hpairs := hdb.identified root hmem
      rw [List.map_map]
      rw [List.Nodup, List.pairwise_map] at hpairs ⊢
      refine hpairs.imp fun hne heq => hne ?_
      simp_all [keys]
    apply List.Nodup.sublist (List.filter_sublist.map q.orderKeys)
    rw [hkeys]
    exact hidentified.sublist (hrows.map keys)

/-- Rows that fork are returned, if the clause is true of all rows in which none is missing. -/
theorem forkedRows_mem_result (h : Compiles s root e o scope d steps q) {hops : List Hop}
    (hplan : IsPlan s d.finalJoins hops steps) (hnodup : q.introduced.Nodup)
    (hmeaning : ∀ ρ : Joined, (∀ f, IsReading q.filter f → ∀ t ∈ f.atoms, ∀ table ∈ t.table?,
      ∃ r, ρ table = some r) → q.Accepts meaning p ρ) (fork key : String) :
    forkedRows s fork (d.finalJoins.root :: hopTables hops) key ∈
      q.result (.forked s o.network fork) meaning p := by
  have hdeclares := h.declares_entities hplan
  refine (Query.mem_result q).mpr ⟨hnodup, h.forkedRows_mem_rows hplan hnodup fork key, ?_⟩
  apply hmeaning
  intro f hf t ht table htable
  have hread : table ∈ tables q.filter := by
    rw [h.tables_filter hf]
    exact List.mem_filterMap.mpr ⟨t, ht, htable⟩
  -- what the clause reads has been asked for
  rcases h.covers_filter hread with rfl | hrequired | ⟨rfl, -⟩
  · exact ⟨_, forkedRows_of_mem hdeclares List.mem_cons_self⟩
  · have hmem := hplan.mem_hopTables h.sound hrequired
    exact ⟨_, forkedRows_of_mem hdeclares (List.mem_cons_of_mem _ hmem)⟩
  · exact ⟨_, forkedRows_expeditionsTable⟩

/-- If another entity is joined, there is a database from which two rows with the same keys are
returned. -/
theorem exists_tie (h : Compiles s root e o scope d steps q) (hnodup : q.introduced.Nodup)
    (haccept : q.CanAccept p) (hjoins : q.JoinsEntity o.network name)
    (hoff : ¬ s.AtOrAbove name root) :
    ∃ db : Database, db.Consistent s o.network ∧ ∃ meaning,
      ∃ ρ ∈ q.result db meaning p, ∃ ρ' ∈ q.result db meaning p,
        ρ name ≠ ρ' name ∧ q.orderKeys ρ = q.orderKeys ρ' := by
  -- the rows of the fork are both returned, and only their keys below it differ
  obtain ⟨hops, hplan⟩ := h.exists_isPlan
  obtain ⟨meaning, hmeaning⟩ := haccept.exists_meaning
  have hresult := h.forkedRows_mem_result hplan hnodup hmeaning name
  have hrow : ∀ key, ∀ entity ∈ d.finalJoins.root :: hopTables hops,
      forkedRows s name (d.finalJoins.root :: hopTables hops) key entity =
        some (Schema.forkedRow name entity (s.forkedKey name key entity)) :=
    fun key entity hmem => forkedRows_of_mem (h.declares_entities hplan) hmem
  have hname : name ∈ d.finalJoins.root :: hopTables hops :=
    List.mem_cons_of_mem _ ((hplan.joinsEntity_iff h.joins_eq).mp hjoins)
  have hroot : root ∈ d.finalJoins.root :: hopTables hops :=
    h.finalJoins_root_eq ▸ List.mem_cons_self
  refine ⟨_, Sql.Database.consistent_forked s o.network name, meaning, _, hresult "1", _,
    hresult "2", ?_, ?_⟩
  · -- at the fork the two rows have identifiers of their own
    rw [hrow _ _ hname, hrow _ _ hname, Schema.forkedKey_of_atOrAbove (.refl name) (by decide),
      Schema.forkedKey_of_atOrAbove (.refl name) (by decide)]
    intro heq
    exact absurd (congrFun (Option.some.inj heq) "local_identifier")
      (by simp [Schema.forkedRow, Row.record])
  · -- and the root does not lie below it
    rw [h.orderKeys_eq, h.orderKeys_eq, hrow _ _ hroot, hrow _ _ hroot,
      Schema.forkedKey_of_not_atOrAbove hoff, Schema.forkedKey_of_not_atOrAbove hoff]

end Compiles

/-! ## §5 Pages of compiled statements -/

/-- The number of rows on a page, if there is a limit. -/
def CompileOptions.pageSize (o : CompileOptions) (limit : Nat) : Nat :=
  min limit o.maxLimit

theorem CompileOptions.eq_of_effectiveLimit {o : CompileOptions} {limit : Nat}
    {effective : Option Nat} (hlimit : o.limit = some limit)
    (h : o.effectiveLimit = .ok effective) : effective = some (o.pageSize limit) := by
  unfold effectiveLimit at h
  rw [hlimit] at h
  cases limit with
  | zero => exact absurd h (by simp)
  | succ limit => exact (Except.ok.inj h).symm

theorem Pagination.eq_of_window {page : Option Nat} {size : Nat} {rows : Option Window}
    (h : Pagination.window ⟨page, some size⟩ = .ok rows) :
    rows = some ⟨page.getD 0 * size, size⟩ := by
  unfold window at h
  dsimp only at h
  split at h
  · exact (Except.ok.inj h).symm
  · exact absurd h (by simp)

/-- The statement for another page differs in its window alone. -/
theorem Compiles.eq_onPage {s : Schema} {root : String} {e : Expression} {o : CompileOptions}
    {scope scope' : Scope} {d d' : Draft} {steps steps' : List JoinStep} {q q' : Query}
    {limit page : Nat} (h : Compiles s root e o scope d steps q) (hlimit : o.limit = some limit)
    (h' : Compiles s root e { o with page := some page } scope' d' steps' q') :
    d' = d ∧ q' = q.onPage (o.pageSize limit) page := by
  -- scope, draft and plan do not depend on the page
  obtain rfl : scope = scope' := Except.ok.inj (h.inScope.symm.trans h'.inScope)
  obtain rfl : d = d' := (Prod.mk.inj (h.visited.symm.trans h'.visited)).2
  obtain ⟨effective, rows, heffective, hassembles⟩ := h.assembled
  obtain ⟨effective', rows', heffective', hassembles'⟩ := h'.assembled
  obtain rfl : steps = steps' := Except.ok.inj (hassembles.plan.symm.trans hassembles'.plan)
  obtain rfl := CompileOptions.eq_of_effectiveLimit hlimit heffective'
  obtain rfl := Pagination.eq_of_window hassembles'.window
  refine ⟨rfl, ?_⟩
  rw [hassembles.query, hassembles'.query]
  rfl

/-- Of the rows of a compiled statement, no two agree in what they are ordered by, in any database
whose keys tell rows apart, exactly if the entities that it joins all lie above the root. Apart from
this, there are statements without any rows: those that give one name to two tables, and those whose
WHERE clause cannot be true. Where no two rows agree, the pages of the statement are together all of
its rows, each once, in whatever way the database puts its keys into order. -/
theorem Schema.pages_are_stable_iff {s : Schema} {root : String} {e : Expression}
    {o : CompileOptions} {p : Sql.Prepared} {limit : Nat} (h : s.compile root e o = .ok p)
    (hlimit : o.limit = some limit) :
    ∃ scope d steps q, Compiles s root e o scope d steps q ∧ p = ⟨q.text, d.params⟩ ∧
      ((∀ db : Database, db.Keyed s o.network → ∀ meaning,
          ((q.result db meaning p.params).map q.orderKeys).Nodup) ↔
        (q.introduced.Nodup → q.CanAccept p.params →
          ∀ name, q.JoinsEntity o.network name → s.AtOrAbove name root)) ∧
      ∀ db meaning le, ((q.result db meaning p.params).map q.orderKeys).Nodup →
        (∀ k k', le k k' → le k' k → k = k') →
        ∀ (n : Nat) (pages : Nat → List Joined),
          (q.result db meaning p.params).length ≤ n * o.pageSize limit →
          (∀ k < n, ∃ scope' d' steps' q',
            Compiles s root e { o with page := some k } scope' d' steps' q' ∧
              q'.MayAnswer db meaning d'.params le (pages k)) →
          ((List.range n).flatMap pages).Perm (q.result db meaning p.params) := by
  obtain ⟨scope, d, steps, q, hcompiles, rfl⟩ := exists_compiles h
  refine ⟨scope, d, steps, q, hcompiles, rfl, ⟨?_, ?_⟩, ?_⟩
  · intro hnodup hnames haccept name hjoins
    by_contra hoff
    obtain ⟨db, hdb, meaning, ρ, hρ, ρ', hρ', hne, hsame⟩ :=
      hcompiles.exists_tie hnames haccept hjoins hoff
    have hrows := hnodup db hdb.toKeyed meaning
    exact hne (congrFun (List.inj_on_of_nodup_map hrows hρ hρ' hsame) name)
  · intro hup db hdb meaning
    -- a statement that returns nothing has no ties, and one that returns a row can accept
    by_cases hempty : q.result db meaning d.params = []
    · rw [hempty]
      exact List.nodup_nil
    · obtain ⟨ρ, hρ⟩ := List.exists_mem_of_ne_nil _ hempty
      obtain ⟨hnames, -, haccepts⟩ := (Query.mem_result q).mp hρ
      exact hcompiles.nodup_orderKeys (hup hnames haccepts.canAccept) hdb
  · intro db meaning le hnodup hle n pages hlength hpages
    refine Query.perm_pages hnodup hle hlength fun k hk => ?_
    obtain ⟨scope', d', steps', q', hcompiles', hanswer⟩ := hpages k hk
    obtain ⟨rfl, rfl⟩ := hcompiles.eq_onPage hlimit hcompiles'
    exact hanswer

/-- The samples of the events of one year can be cut into pages, but not the events with samples of
one genus: of an event with two samples, the first one may stand on the first page and on the
second. -/
theorem Schema.pages_are_stable_iff_fieldwork :
    ∃ p p', ∃ q q' : Query,
      Schema.fieldwork.compile "Sample" (.comparison "year" .eq "2019") { limit := some 1 } =
        .ok p ∧
      Schema.fieldwork.compile "Event" (.comparison "genus" .eq "Conus") { limit := some 1 } =
        .ok p' ∧
      p.text = q.text ∧ p'.text = q'.text ∧ q.JoinsEntity 1 "Event" ∧
      (∀ db : Database, db.Keyed .fieldwork 1 → ∀ meaning,
        ((q.result db meaning p.params).map q.orderKeys).Nodup) ∧
      (¬ ∀ db : Database, db.Keyed .fieldwork 1 → ∀ meaning,
        ((q'.result db meaning p'.params).map q'.orderKeys).Nodup) ∧
      ∃ meaning ρ ρ', q'.result (.forked .fieldwork 1 "Sample") meaning p'.params = [ρ, ρ'] ∧
        ρ "Sample" ≠ ρ' "Sample" ∧ ∀ le, (∀ k, le k k) →
          (q'.onPage 1 0).MayAnswer (.forked .fieldwork 1 "Sample") meaning p'.params le [ρ] ∧
          (q'.onPage 1 1).MayAnswer (.forked .fieldwork 1 "Sample") meaning p'.params le [ρ] := by
  have hcompile : Schema.fieldwork.compile "Sample" (.comparison "year" .eq "2019")
      { limit := some 1 } = .ok _ := rfl
  have hcompile' : Schema.fieldwork.compile "Event" (.comparison "genus" .eq "Conus")
      { limit := some 1 } = .ok _ := rfl
  obtain ⟨scope, d, steps, q, hcompiles, hp, hiff, -⟩ := pages_are_stable_iff hcompile rfl
  obtain ⟨scope', d', steps', q', hcompiles', hp', hiff', -⟩ := pages_are_stable_iff hcompile' rfl
  -- the parts of the statements are computed one after the other
  obtain ⟨_, _, -, hassembles⟩ := hcompiles.assembled
  obtain ⟨_, _, -, hassembles'⟩ := hcompiles'.assembled
  obtain rfl := Except.ok.inj hcompiles.inScope
  obtain rfl := Except.ok.inj hcompiles'.inScope
  obtain rfl := (Prod.mk.inj hcompiles.visited).2
  obtain rfl := (Prod.mk.inj hcompiles'.visited).2
  obtain rfl := Except.ok.inj hassembles.plan
  obtain rfl := Except.ok.inj hassembles'.plan
  have hlink : Schema.fieldwork.IsParent "Event" "Sample" :=
    ⟨_, List.mem_cons_of_mem _ List.mem_cons_self, rfl, rfl⟩
  have htables : q.joins.map Join.table =
      [entityTable 1 "Event", ⟨none, identifiersTable, some "Sample_entity_identifiers"⟩,
        ⟨none, expeditionsTable, none⟩] := by
    rw [hcompiles.joins_eq]
    rfl
  have htables' : q'.joins.map Join.table =
      [entityTable 1 "Sample", ⟨none, identifiersTable, some "Event_entity_identifiers"⟩,
        ⟨none, expeditionsTable, none⟩] := by
    rw [hcompiles'.joins_eq]
    rfl
  have hfilter' : q'.filter =
      (Test.compare (.property "Sample" "data" "urn:'genus") none .eq 1 : Test Nat).tokens := by
    rw [hassembles'.query]
    rfl
  have hreading : IsReading q'.filter (.atom (.compare (.property "Sample" "data" "urn:'genus")
      none .eq 1)) := by
    rw [hfilter']
    exact .conjunction (.factor (.test _))
  have hnames' : q'.introduced.Nodup := by
    rw [hcompiles'.introduced_eq]
    decide
  obtain ⟨ρ, ρ', hrows, hρ, hρ', hsame⟩ : ∃ ρ ρ',
      q'.rows (.forked .fieldwork 1 "Sample") = [ρ, ρ'] ∧ ρ "Sample" = some (.record "1" "1") ∧
        ρ' "Sample" = some (.record "2" "1") ∧ q'.orderKeys ρ = q'.orderKeys ρ' := by
    rw [hassembles'.query]
    exact ⟨_, _, rfl, rfl, rfl, rfl⟩
  have hresult : ∀ params,
      q'.result (.forked .fieldwork 1 "Sample") (fun _ _ => some true) params = [ρ, ρ'] := by
    intro params
    rw [Query.result_eq_rows hnames', hrows]
    intro ρ₁ hmem
    rw [hrows] at hmem
    obtain ⟨r, hr⟩ : ∃ r, ρ₁ "Sample" = some r := by
      rcases List.mem_pair.mp hmem with rfl | rfl
      · exact ⟨_, hρ⟩
      · exact ⟨_, hρ'⟩
    refine .inr ⟨_, hreading, ?_⟩
    show (ρ₁ "Sample").bind (fun _ => some true) = some true
    rw [hr, Option.bind_some]
  refine ⟨_, _, q, q', hcompile, hcompile', congrArg Sql.Prepared.text hp,
    congrArg Sql.Prepared.text hp', List.mem_map.mp (htables ▸ List.mem_cons_self), ?_, ?_,
    fun _ _ => some true, ρ, ρ', hresult _, ?_,
    fun le hle => Query.mayAnswer_twice (hresult _) hsame hle⟩
  · apply hiff.mpr
    intro _ _ name ⟨j, hj, htable⟩
    have hmem : entityTable 1 name ∈ q.joins.map Join.table := List.mem_map.mpr ⟨j, hj, htable⟩
    have hname : name = "Event" := by simpa [htables, entityTable] using hmem
    exact hname ▸ .of_isParent hlink
  · intro hnodup
    have hsample : q'.JoinsEntity 1 "Sample" := List.mem_map.mp (htables' ▸ List.mem_cons_self)
    have haccept : ∀ params, q'.CanAccept params :=
      fun params => .inr ⟨_, hreading, fun _ => true, rfl, rfl⟩
    exact AtOrAbove.not_of_isParent hlink (hiff'.mp hnodup hnames' (haccept _) "Sample" hsample)
  · rw [hρ, hρ']
    intro heq
    exact absurd (congrFun (Option.some.inj heq) "local_identifier") (by simp [Row.record])

end EntityQuery
