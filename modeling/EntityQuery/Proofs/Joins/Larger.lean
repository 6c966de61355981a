import EntityQuery.Proofs.Hierarchy.Larger
import EntityQuery.Proofs.Joins.Requests

/-!
# Joins under larger schemas

A request for entities of a schema has the same plan under every schema that holds all its
entities: they are put in the same order, each is reached by the same hops, and if one is in
another tree than the root, it is so there as well.
-/

namespace EntityQuery

open Schema (Within)

variable {s s' : Schema}

/-! ## §1 Order -/

namespace Schema.Within

variable {names : List String}

theorem isBefore_eq (h : s.Within s') {a b : Entity} (ha : a ∈ s.entities) (hb : b ∈ s.entities) :
    s'.isBefore a.name b.name = s.isBefore a.name b.name := by
  rw [isBefore, isBefore, h.depth_eq ha, h.depth_eq hb]

theorem inOrder_eq (h : s.Within s') (hnames : s.Declares names) :
    s'.inOrder names = s.inOrder names := by
  apply s.eq_inOrder _ fun name => s'.mem_inOrder_iff
  -- sorted under the larger schema, the names are sorted under the smaller one
  refine (s'.pairwise_inOrder names).imp_of_mem ?_
  intro a b ha hb hab
  obtain ⟨x, hx, rfl⟩ := hnames a (s'.mem_inOrder_iff.mp ha)
  obtain ⟨y, hy, rfl⟩ := hnames b (s'.mem_inOrder_iff.mp hb)
  rwa [h.isBefore_eq hx hy] at hab

end Schema.Within

/-! ## §2 Plans -/

namespace JoinRequest

variable {r : JoinRequest}

theorem route_eq (h : s.Within s') (hroot : s.Declares [r.root]) {name : String}
    (hname : s.Declares [name]) : r.route s' name = r.route s name := by
  obtain ⟨root, hrootMem, hrootName⟩ := Schema.declares_singleton.mp hroot
  obtain ⟨e, he, rfl⟩ := Schema.declares_singleton.mp hname
  have hspec := Schema.commonAncestor?_spec hrootMem he
  unfold route
  rw [← hrootName, h.commonAncestor?_eq hrootMem he]
  cases hmeeting : s.commonAncestor? root.name e.name with
  | none => rfl
  | some meeting =>
    rw [hmeeting] at hspec
    -- both ways down exist, as the meeting place is above both
    obtain ⟨up, hup, -⟩ := Schema.exists_descent hrootMem hspec.2.left
    obtain ⟨down, hdown, -⟩ := Schema.exists_descent he hspec.2.right
    simp only [hup, hdown, h.descent_eq hrootMem hup, h.descent_eq he hdown]

theorem routes_eq (h : s.Within s') (hroot : s.Declares [r.root]) {names : List String}
    (hnames : s.Declares names) : r.routes s' names = r.routes s names := by
  induction names with
  | nil => rfl
  | cons name names ih =>
    have hname : s.Declares [name] := Schema.declares_singleton.mpr (hnames name List.mem_cons_self)
    rw [routes, routes, route_eq h hroot hname,
      ih fun other hother => hnames other (List.mem_cons_of_mem _ hother)]

theorem Sound.selection_eq (hr : Sound s r) (h : s.Within s') :
    r.selection s' = r.selection s :=
  h.inOrder_eq fun name hname => hr.required name (hr.selected hname)

/-- A request for entities of a schema has the same plan under a larger one. -/
theorem Sound.plan_eq (hr : Sound s r) (h : s.Within s') : r.plan s' = r.plan s := by
  have hrequired : s.Declares (s.inOrder r.required) :=
    fun name hname => hr.required name (s.mem_inOrder_iff.mp hname)
  rw [plan, plan, h.inOrder_eq hr.required, routes_eq h hr.root hrequired, hr.selection_eq h]

end JoinRequest

end EntityQuery
