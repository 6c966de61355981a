import EntityQuery.Proofs.Joins.Requests

/-!
# The directions of hops

The hops of a plan that lead to ancestors of the root go up from the root, and all others go down
from a parent. So the two ends of a hop are determined by its table and the root: plans of different
requests for one root join a table in the same way, and differ in whether it is joined and in the
type of the join.
-/

namespace EntityQuery

variable {s : Schema} {root : String}

/-! ## §1 Lineages are chains -/

/-- Of two entities at or above a third one, one is at or above the other. -/
theorem Schema.AtOrAbove.total {a b c : String} (ha : s.AtOrAbove a c) (hb : s.AtOrAbove b c) :
    s.AtOrAbove a b ∨ s.AtOrAbove b a := by
  induction ha with
  | refl => exact .inr hb
  | tail habove hlink ih =>
    rcases (iff_of_isParent hlink).mp hb with rfl | hb
    · exact .inl (habove.tail hlink)
    · exact ih hb

/-- An entity has one child at or above another entity at most. -/
theorem Schema.IsParent.child_unique {parent child child' : String}
    (h : s.IsParent parent child) (h' : s.IsParent parent child') (habove : s.AtOrAbove child root)
    (habove' : s.AtOrAbove child' root) : child = child' := by
  rcases habove.total habove' with hle | hle
  · rcases (AtOrAbove.iff_of_isParent h').mp hle with heq | hle
    · exact heq
    · exact absurd hle (AtOrAbove.not_of_isParent h)
  · rcases (AtOrAbove.iff_of_isParent h).mp hle with heq | hle
    · exact heq.symm
    · exact absurd hle (AtOrAbove.not_of_isParent h')

/-! ## §2 Up and down -/

/-- A hop leads up to an ancestor of the root, from an entity at or above the root; or it leads down
to an entity that is not at or above the root. -/
def Hop.Directed (s : Schema) (root : String) (hop : Hop) : Prop :=
  s.AtOrAbove hop.table root ∧ hop.table = hop.parent ∧ s.AtOrAbove hop.child root ∨
    ¬ s.AtOrAbove hop.table root ∧ hop.table = hop.child

/-- Tables as hops from a root add them: on the lineage of the root without holes, and off it after
their parents. -/
structure Grown (s : Schema) (root : String) (joined : List String) : Prop where
  lineage : ∀ x ∈ joined, s.AtOrAbove x root →
    ∀ y, s.AtOrAbove x y → s.AtOrAbove y root → y ∈ joined
  off : ∀ x ∈ joined, ¬ s.AtOrAbove x root → ∀ parent, s.IsParent parent x → parent ∈ joined

theorem Grown.start (s : Schema) (root : String) : Grown s root [root] where
  lineage x hx _ y hxy hy := by
    obtain rfl := List.mem_singleton.mp hx
    exact List.mem_singleton.mpr (hy.antisymm hxy)
  off x hx hoff := by
    obtain rfl := List.mem_singleton.mp hx
    exact absurd (.refl _) hoff

variable {joined : List String} {hop : Hop}

/-- A hop to a new table is directed. -/
theorem Grown.directed (h : Grown s root joined) (hextends : hop.Extends s joined)
    (hnew : hop.table ∉ joined) : hop.Directed s root := by
  obtain ⟨hlink, ⟨htable, hparent⟩ | ⟨htable, hchild⟩⟩ := hextends
  · refine .inr ⟨fun habove => ?_, htable⟩
    -- it would lie on the lineage between its parent and the root
    rw [htable] at habove hnew
    have hup := Schema.AtOrAbove.of_isParent hlink
    exact hnew (h.lineage _ hparent (hup.trans habove) _ hup habove)
  · by_cases habove : s.AtOrAbove hop.child root
    · refine .inl ⟨?_, htable, habove⟩
      rw [htable]
      exact (Schema.AtOrAbove.of_isParent hlink).trans habove
    · exact absurd (h.off _ hchild habove _ hlink) (htable ▸ hnew)

theorem Grown.cons (h : Grown s root joined) (hextends : hop.Extends s joined)
    (hnew : hop.table ∉ joined) : Grown s root (hop.table :: joined) := by
  obtain ⟨hlink, hends⟩ := hextends
  rcases h.directed ⟨hlink, hends⟩ hnew with ⟨habove, htable, hchild⟩ | ⟨hoff, htable⟩
  · have hmem : hop.child ∈ joined := by
      rcases hends with ⟨heq, -⟩ | ⟨-, hmem⟩
      · exact absurd (htable.symm.trans heq) hlink.ne
      · exact hmem
    refine ⟨?_, ?_⟩
    · intro x hx hxroot y hxy hy
      rcases List.mem_cons.mp hx with rfl | hx
      · -- below the new table the lineage goes on with the child
        rcases hy.total hchild with hle | hle
        · rcases (Schema.AtOrAbove.iff_of_isParent hlink).mp hle with rfl | hle
          · exact List.mem_cons_of_mem _ hmem
          · rw [htable] at hxy ⊢
            exact hle.antisymm hxy ▸ List.mem_cons_self
        · exact List.mem_cons_of_mem _ (h.lineage _ hmem hchild y hle hy)
      · exact List.mem_cons_of_mem _ (h.lineage x hx hxroot y hxy hy)
    · intro x hx hxoff parent hparent
      rcases List.mem_cons.mp hx with rfl | hx
      · exact absurd habove hxoff
      · exact List.mem_cons_of_mem _ (h.off x hx hxoff parent hparent)
  · have hmem : hop.parent ∈ joined := by
      rcases hends with ⟨-, hmem⟩ | ⟨heq, -⟩
      · exact hmem
      · exact absurd (heq.symm.trans htable) hlink.ne
    refine ⟨?_, ?_⟩
    · intro x hx hxroot y hxy hy
      rcases List.mem_cons.mp hx with rfl | hx
      · exact absurd hxroot hoff
      · exact List.mem_cons_of_mem _ (h.lineage x hx hxroot y hxy hy)
    · intro x hx hxoff parent hparent
      rcases List.mem_cons.mp hx with rfl | hx
      · rw [htable] at hparent
        exact List.mem_cons_of_mem _ (hparent.unique hlink ▸ hmem)
      · exact List.mem_cons_of_mem _ (h.off x hx hxoff parent hparent)

theorem directed_of_connected {hops : List Hop} (h : Grown s root joined)
    (hconnected : Connected s joined hops) (hnodup : (joined ++ hopTables hops).Nodup) :
    ∀ hop ∈ hops, hop.Directed s root := by
  -- the tables that are joined grow by that of each hop, which was not among them
  induction hops generalizing joined with
  | nil => exact fun _ hhop => absurd hhop List.not_mem_nil
  | cons first hops ih =>
    have hnodup' : (first.table :: joined ++ hopTables hops).Nodup :=
      List.perm_middle.nodup_iff.mp hnodup
    have hnew : first.table ∉ joined := fun hmem =>
      (List.nodup_cons.mp hnodup').1 (List.mem_append_left _ hmem)
    intro hop hhop
    rcases List.mem_cons.mp hhop with rfl | hhop
    · exact h.directed hconnected.1 hnew
    · exact ih (h.cons hconnected.1 hnew) hconnected.2 hnodup' hop hhop

/-- The ends of a hop are determined by its table and the root. -/
theorem Hop.Directed.ends_eq {hop' : Hop} (h : hop.Directed s root) (h' : hop'.Directed s root)
    (hlink : s.IsParent hop.parent hop.child) (hlink' : s.IsParent hop'.parent hop'.child)
    (htable : hop'.table = hop.table) : hop'.child = hop.child ∧ hop'.parent = hop.parent := by
  -- whether the table lies above the root says which end of the hop it is
  rcases h with ⟨habove, hparent, hchild⟩ | ⟨hoff, hchild⟩
  · rcases h' with ⟨-, hparent', hchild'⟩ | ⟨hoff', -⟩
    · have heq : hop'.parent = hop.parent := hparent'.symm.trans (htable.trans hparent)
      exact ⟨(heq ▸ hlink').child_unique hlink hchild' hchild, heq⟩
    · exact absurd (htable ▸ habove) hoff'
  · rcases h' with ⟨habove', -, -⟩ | ⟨-, hchild'⟩
    · exact absurd (htable ▸ habove') hoff
    · have heq : hop'.child = hop.child := hchild'.symm.trans (htable.trans hchild)
      exact ⟨heq, (heq ▸ hlink').unique hlink⟩

/-! ## §3 Hops of plans -/

namespace JoinRequest.IsPlan

variable {r : JoinRequest} {hops : List Hop} {steps : List JoinStep}

theorem directed (h : IsPlan s r hops steps) : ∀ hop ∈ hops, hop.Directed s r.root := by
  apply directed_of_connected (Grown.start s r.root) h.connected
  exact List.nodup_cons.mpr ⟨fun hmem => ((h.tables _).mp hmem).1 rfl, h.once⟩

theorem link (h : IsPlan s r hops steps) (hhop : hop ∈ hops) :
    s.IsParent hop.parent hop.child := by
  obtain ⟨before, after, heq⟩ := List.append_of_mem hhop
  exact (h.connected.extends_of_eq_append heq).link

/-- A request that asks for more is planned with all hops of the other one, perhaps of another
type. -/
theorem exists_hop {r' : JoinRequest} {hops' : List Hop} {steps' : List JoinStep}
    (h : IsPlan s r hops steps) (h' : IsPlan s r' hops' steps') (hroot : r'.root = r.root)
    (hrequired : r.required ⊆ r'.required) (hhop : hop ∈ hops) :
    ∃ type, { hop with type } ∈ hops' := by
  obtain ⟨hne, target, htarget, hpath⟩ := (h.tables _).mp (List.mem_map_of_mem hhop)
  have hmem : hop.table ∈ hopTables hops' :=
    (h'.tables _).mpr ⟨hroot ▸ hne, target, hrequired htarget, hroot ▸ hpath⟩
  obtain ⟨hop', hhop', htable⟩ := List.mem_map.mp hmem
  -- the table is joined once, and its two ends follow from where it lies
  obtain ⟨hchild, hparent⟩ := (h.directed hop hhop).ends_eq (hroot ▸ h'.directed hop' hhop')
    (h.link hhop) (h'.link hhop') htable
  refine ⟨hop'.type, ?_⟩
  rw [← htable, ← hchild, ← hparent]
  exact hhop'

end JoinRequest.IsPlan

end EntityQuery
