import EntityQuery.Proofs.Hierarchy.Ancestors
import EntityQuery.Proofs.Joins.Order

/-!
# Routes

The hops to the entities that a request asks for. Each hop follows a parent link from a table that
is joined before it; together they lead to the entities on the paths from the root, and to no
others; and the type of a hop depends on its table alone. Leaving out hops to tables that are
joined already changes none of this.
-/

namespace EntityQuery

variable {s : Schema}

/-! ## §1 Connected hops -/

/-- A hop along a parent link to a table, from one that is joined already. -/
structure Hop.Extends (s : Schema) (joined : List String) (hop : Hop) : Prop where
  link : s.IsParent hop.parent hop.child
  ends : hop.table = hop.child ∧ hop.parent ∈ joined ∨ hop.table = hop.parent ∧ hop.child ∈ joined

theorem Hop.Extends.mono {joined joined' : List String} {hop : Hop} (h : hop.Extends s joined)
    (hsubset : joined ⊆ joined') : hop.Extends s joined' :=
  ⟨h.link, h.ends.imp (And.imp_right (@hsubset _)) (And.imp_right (@hsubset _))⟩

/-- The tables that hops lead to. -/
def hopTables (hops : List Hop) : List String :=
  hops.map (·.table)

/-- Hops each of which extends the tables before it. -/
def Connected (s : Schema) : (joined : List String) → List Hop → Prop
  | _, [] => True
  | joined, hop :: hops => hop.Extends s joined ∧ Connected s (hop.table :: joined) hops

namespace Connected

variable {joined joined' : List String} {hops others : List Hop}

theorem mono (h : Connected s joined hops) (hsubset : joined ⊆ joined') :
    Connected s joined' hops := by
  induction hops generalizing joined joined' with
  | nil => trivial
  | cons hop hops ih => exact ⟨h.1.mono hsubset, ih h.2 (List.cons_subset_cons _ hsubset)⟩

theorem append (h : Connected s joined hops) (h' : Connected s (hopTables hops ++ joined) others) :
    Connected s joined (hops ++ others) := by
  induction hops generalizing joined with
  | nil => exact h'
  | cons hop hops ih =>
    -- the first table is there for the others as well, in whatever place
    exact ⟨h.1, ih h.2 (h'.mono List.perm_middle.symm.subset)⟩

/-- Each hop extends the tables that come before it. -/
theorem extends_of_eq_append (h : Connected s joined hops) {before after : List Hop} {hop : Hop}
    (heq : hops = before ++ hop :: after) : hop.Extends s (joined ++ hopTables before) := by
  induction before generalizing joined hops with
  | nil =>
    subst heq
    exact h.1.mono (List.subset_append_left _ _)
  | cons first before ih =>
    subst heq
    exact (ih h.2 rfl).mono List.perm_middle.symm.subset

end Connected

/-! ## §2 Each table once -/

namespace JoinRequest

variable {joined : List String} {hops : List Hop}

theorem connected_newHops (h : Connected s joined hops) :
    Connected s joined (newHops joined hops) := by
  induction hops generalizing joined with
  | nil => trivial
  | cons hop hops ih =>
    unfold newHops
    split
    · exact ih (h.2.mono (List.cons_subset.mpr ⟨‹_›, List.Subset.refl _⟩))
    · exact ⟨h.1, ih h.2⟩

theorem mem_hopTables_newHops {name : String} :
    name ∈ hopTables (newHops joined hops) ↔ name ∈ hopTables hops ∧ name ∉ joined := by
  induction hops generalizing joined with
  | nil => simp [hopTables, newHops]
  | cons hop hops ih =>
    unfold newHops
    simp only [hopTables] at ih ⊢
    split
    · rename_i hmem
      rw [ih, List.map_cons, List.mem_cons]
      constructor
      · exact fun ⟨hname, hnot⟩ => ⟨.inr hname, hnot⟩
      · rintro ⟨rfl | hname, hnot⟩
        · exact absurd hmem hnot
        · exact ⟨hname, hnot⟩
    · rename_i hnew
      rw [List.map_cons, List.map_cons, List.mem_cons, List.mem_cons, ih, List.mem_cons, not_or]
      constructor
      · rintro (rfl | ⟨hname, -, hnot⟩)
        · exact ⟨.inl rfl, hnew⟩
        · exact ⟨.inr hname, hnot⟩
      · rintro ⟨hname, hnot⟩
        by_cases heq : name = hop.table
        · exact .inl heq
        · exact .inr ⟨hname.resolve_left heq, heq, hnot⟩

theorem nodup_newHops : (hopTables (newHops joined hops)).Nodup := by
  induction hops generalizing joined with
  | nil => exact List.nodup_nil
  | cons hop hops ih =>
    unfold newHops
    split
    · exact ih
    · refine List.nodup_cons.mpr ⟨?_, ih⟩
      intro hmem
      exact (mem_hopTables_newHops.mp hmem).2 List.mem_cons_self

/-! ## §3 One route -/

/-- The type of a hop is the right one: rows without partner are kept only where the table is added
to the result and lies off the way up from the root. -/
def RightlyTyped (s : Schema) (r : JoinRequest) (hop : Hop) : Prop :=
  hop.type = .left ↔ ¬ s.AtOrAbove hop.table r.root ∧ hop.table ∈ r.selected

/-- Hops that lead from the root of a request to some entities of its tree. -/
structure LeadTo (s : Schema) (r : JoinRequest) (targets : List String) (hops : List Hop) :
    Prop where
  sameTree : ∀ target ∈ targets, s.SameTree r.root target
  connected : Connected s [r.root] hops
  tables : ∀ name, name ≠ r.root →
    (name ∈ hopTables hops ↔ ∃ target ∈ targets, s.OnPath r.root target name)
  typed : ∀ hop ∈ hops, RightlyTyped s r hop

theorem LeadTo.nil (r : JoinRequest) : LeadTo s r [] [] where
  sameTree := by simp
  connected := trivial
  tables := by simp [hopTables]
  typed := by simp

theorem LeadTo.append {r : JoinRequest} {targets targets' : List String} {hops hops' : List Hop}
    (h : LeadTo s r targets hops) (h' : LeadTo s r targets' hops') :
    LeadTo s r (targets ++ targets') (hops ++ hops') where
  sameTree target htarget :=
    (List.mem_append.mp htarget).elim (h.sameTree target) (h'.sameTree target)
  connected := h.connected.append (h'.connected.mono (List.subset_append_right _ _))
  tables name hname := by
    have hleft := h.tables name hname
    have hright := h'.tables name hname
    simp only [hopTables] at hleft hright ⊢
    simp only [List.map_append, List.mem_append, hleft, hright, or_and_right, exists_or]
  typed hop hhop := (List.mem_append.mp hhop).elim (h.typed hop) (h'.typed hop)

section OneRoute

variable {r : JoinRequest} {meeting target : String} {up down : List (Entity × Entity)}

theorem mem_hopTables_hopsUp {name : String} :
    name ∈ hopTables (hopsUp up) ↔ ∃ link ∈ up, link.1.name = name := by
  simp [hopTables, hopsUp]

theorem mem_hopTables_hopsDown {name : String} :
    name ∈ hopTables (r.hopsDown down) ↔ ∃ link ∈ down, link.2.name = name := by
  simp [hopTables, hopsDown]

theorem connected_hopsUp {name : String} (h : s.Descends meeting name up) {joined : List String}
    (hjoined : name ∈ joined) : Connected s joined (hopsUp up) := by
  -- the last link of the way down is the first one of the way up
  induction h generalizing joined with
  | refl => trivial
  | @step path parent child _ hlink ih =>
    have hhops : hopsUp (path ++ [(parent, child)]) =
        ⟨.inner, parent.name, child.name, parent.name⟩ :: hopsUp path := by
      simp [hopsUp]
    rw [hhops]
    exact ⟨⟨hlink, .inr ⟨rfl, hjoined⟩⟩, ih List.mem_cons_self⟩

theorem connected_hopsDown {name : String} (h : s.Descends meeting name down)
    {joined : List String} (hjoined : meeting ∈ joined) :
    Connected s joined (r.hopsDown down) := by
  induction h with
  | refl => trivial
  | @step path parent child h hlink ih =>
    have hhops : r.hopsDown (path ++ [(parent, child)]) = r.hopsDown path ++
        [⟨if child.name ∈ r.selected then .left else .inner, child.name, child.name,
          parent.name⟩] := by
      simp [hopsDown]
    rw [hhops]
    refine ih.append ⟨⟨hlink, .inl ⟨rfl, ?_⟩⟩, trivial⟩
    -- the parent is where the way down begins, or the child of an earlier link
    show parent.name ∈ _
    by_cases heq : parent.name = meeting
    · rw [heq]
      exact List.mem_append_right _ hjoined
    · have hchild := h.exists_child_iff.mpr ⟨h.above, .refl _, heq⟩
      exact List.mem_append_left _ (mem_hopTables_hopsDown.mpr hchild)

/-- The way up to the meeting place and down from there is a route. -/
theorem leadTo_of_descends (hmeeting : s.IsMeeting meeting r.root target)
    (hup : s.Descends meeting r.root up) (hdown : s.Descends meeting target down) :
    LeadTo s r [target] (hopsUp up ++ r.hopsDown down) where
  sameTree := by simpa using hmeeting.sameTree
  connected := by
    refine (connected_hopsUp hup List.mem_cons_self).append (connected_hopsDown hdown ?_)
    by_cases heq : meeting = r.root
    · exact List.mem_append_right _ (heq ▸ List.mem_cons_self)
    · have hparent := hup.exists_parent_iff.mpr ⟨.refl _, hup.above, heq⟩
      exact List.mem_append_left _ (mem_hopTables_hopsUp.mpr hparent)
  tables name hname := by
    have hsplit : name ∈ hopTables (hopsUp up ++ r.hopsDown down) ↔
        name ∈ hopTables (hopsUp up) ∨ name ∈ hopTables (r.hopsDown down) := by
      simp [hopTables]
    rw [hsplit, mem_hopTables_hopsUp, mem_hopTables_hopsDown, hup.exists_parent_iff,
      hdown.exists_child_iff]
    simp only [List.mem_singleton, exists_eq_left]
    constructor
    · rintro (⟨hle, hge, -⟩ | ⟨hle, hge, -⟩)
      · exact ⟨meeting, hmeeting, hle, .inl hge⟩
      · exact ⟨meeting, hmeeting, hle, .inr hge⟩
    · rintro ⟨meeting', hmeeting', hle, hge⟩
      obtain rfl := hmeeting.unique hmeeting'
      rcases hge with hge | hge
      · exact .inl ⟨hle, hge, hname⟩
      · -- the meeting place itself is reached on the way up
        by_cases heq : name = meeting
        · exact .inl ⟨hle, heq ▸ hup.above, hname⟩
        · exact .inr ⟨hle, hge, heq⟩
  typed := by
    intro hop hhop
    rcases List.mem_append.mp hhop with hhop | hhop
    · obtain ⟨link, hlink, rfl⟩ := List.mem_map.mp hhop
      have habove := (hup.exists_parent_iff.mp ⟨link, List.mem_reverse.mp hlink, rfl⟩).2.1
      exact iff_of_false (by simp) fun h => h.1 habove
    · obtain ⟨link, hlink, rfl⟩ := List.mem_map.mp hhop
      obtain ⟨hle, hge, hne⟩ := hdown.exists_child_iff.mp ⟨link, hlink, rfl⟩
      -- an ancestor of the root on the way down would be a nearer meeting place
      have hoff : ¬ s.AtOrAbove link.2.name r.root :=
        fun habove => hne ((hmeeting.nearest _ habove hge).antisymm hle)
      unfold RightlyTyped
      simp only
      by_cases hselected : link.2.name ∈ r.selected
      · simp [hselected, hoff]
      · simp [hselected]

end OneRoute

/-- A route leads to its target, and there is none only into another tree. -/
theorem route_spec {r : JoinRequest} {root target : Entity} (hroot : root ∈ s.entities)
    (hname : root.name = r.root) (htarget : target ∈ s.entities) :
    match r.route s target.name with
    | .ok hops => LeadTo s r [target.name] hops
    | .error error =>
      error = .unrelatedEntities target.name r.root ∧ ¬ s.SameTree r.root target.name := by
  have hmeet := Schema.commonAncestor?_spec hroot htarget
  rw [hname] at hmeet
  unfold route
  split at hmeet
  · rename_i meeting hmeeting
    obtain ⟨hmem, hspec⟩ := hmeet
    -- there is a way down from the meeting place to both entities
    obtain ⟨up, hup, hupDescends⟩ := Schema.exists_descent hroot (hname ▸ hspec.left)
    obtain ⟨down, hdown, hdownDescends⟩ := Schema.exists_descent htarget hspec.right
    rw [hname] at hup hupDescends
    rw [hmeeting]
    simp only [hup, hdown]
    exact leadTo_of_descends hspec hupDescends hdownDescends
  · rename_i hnone
    rw [hnone]
    exact ⟨rfl, hmeet⟩

/-! ## §4 Several routes -/

theorem routes_spec {r : JoinRequest} {root : Entity} (hroot : root ∈ s.entities)
    (hname : root.name = r.root) {targets : List String} (htargets : s.Declares targets) :
    match r.routes s targets with
    | .ok hops => LeadTo s r targets hops
    | .error error =>
      ∃ target ∈ targets, error = .unrelatedEntities target r.root ∧
        ¬ s.SameTree r.root target := by
  induction targets with
  | nil => exact .nil r
  | cons first others ih =>
    obtain ⟨target, htarget, rfl⟩ := htargets first List.mem_cons_self
    have hothers := ih fun name hname => htargets name (List.mem_cons_of_mem _ hname)
    have hfirst := route_spec hroot hname htarget
    unfold routes
    cases hroute : r.route s target.name with
    | error error =>
      rw [hroute] at hfirst
      exact ⟨target.name, List.mem_cons_self, hfirst⟩
    | ok hops =>
      rw [hroute] at hfirst
      cases hroutes : r.routes s others with
      | error error =>
        rw [hroutes] at hothers
        obtain ⟨target', htarget', herror⟩ := hothers
        exact ⟨target', List.mem_cons_of_mem _ htarget', herror⟩
      | ok hops' =>
        rw [hroutes] at hothers
        exact hfirst.append hothers

end JoinRequest

end EntityQuery
