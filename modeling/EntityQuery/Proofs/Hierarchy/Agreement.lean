import Mathlib.Data.List.Chain
import EntityQuery.Proofs.Joins.Plan

/-!
# The walks agree

Climbing for ancestors, descending for descendants and climbing for a path are three walks over the
same parent links. All three are brought to one relation, that an entity is at or above another,
and so agree with each other; common ancestors and relatedness are then said by lineages and by the
tops at which these end.

Nothing is assumed of the names that are asked about: of a name that is not declared, every answer
is that there is nothing.
-/

namespace EntityQuery.Schema

variable {s : Schema}

/-! ## §1 Chains of parents -/

/-- A list of entities is the whole chain of parents above a name, the nearest first: the parent
and the chain above it, or nothing where there is no parent. -/
def IsParentChain (s : Schema) : String → List Entity → Prop
  | name, [] => ∀ parent, ¬ s.IsParent parent name
  | name, parent :: above =>
    parent ∈ s.entities ∧ s.IsParent parent.name name ∧ IsParentChain s parent.name above

theorem IsParent.declares_child {parent child : String} (h : s.IsParent parent child) :
    s.Declares [child] := by
  obtain ⟨e, he, hname, -⟩ := h
  exact declares_singleton.mpr ⟨e, he, hname⟩

theorem entity?_eq_none {name : String} (h : ¬ s.Declares [name]) : s.entity? name = none := by
  rw [Option.eq_none_iff_forall_ne_some]
  intro e he
  obtain ⟨hmem, hname⟩ := mem_entities_of_entity? he
  exact h (declares_singleton.mpr ⟨e, hmem, hname⟩)

theorem lineage_of_mem {e : Entity} (he : e ∈ s.entities) :
    s.lineage e.name = e :: s.ancestors e.name := by
  rw [lineage, entity?_of_mem he]

theorem ancestors_of_not_declares {name : String} (h : ¬ s.Declares [name]) :
    s.ancestors name = [] := by
  rw [ancestors, entity?_eq_none h]

theorem lineage_of_not_declares {name : String} (h : ¬ s.Declares [name]) :
    s.lineage name = [] := by
  rw [lineage, entity?_eq_none h]

/-- The ancestors are the parent and its ancestors. -/
theorem ancestors_of_parent? {e parent : Entity} (he : e ∈ s.entities)
    (h : s.parent? e = some parent) :
    s.ancestors e.name = parent :: s.ancestors parent.name := by
  have hlineage := lineage_of_parent? he h
  rw [lineage_of_mem he, lineage_of_mem (parent?_mem h)] at hlineage
  exact (List.cons.inj hlineage).2

theorem ancestors_of_top {e : Entity} (he : e ∈ s.entities) (h : s.parent? e = none) :
    s.ancestors e.name = [] := by
  have hlineage := lineage_of_top he h
  rw [lineage_of_mem he] at hlineage
  exact (List.cons.inj hlineage).2

theorem exists_parent?_of_isParent {parent child : String} (h : s.IsParent parent child) :
    ∃ e ∈ s.entities, ∃ p ∈ s.entities,
      e.name = child ∧ p.name = parent ∧ s.parent? e = some p := by
  obtain ⟨e, he, hchild, hparent⟩ := h
  obtain ⟨p, hp, rfl⟩ := exists_parent he hparent
  exact ⟨e, he, p, hp, hchild, rfl, by rw [parent?, hparent, Option.bind_some, entity?_of_mem hp]⟩

theorem isParentChain_ancestors (s : Schema) (name : String) :
    s.IsParentChain name (s.ancestors name) := by
  by_cases hdeclared : s.Declares [name]
  · obtain ⟨e, he, rfl⟩ := declares_singleton.mp hdeclared
    -- the induction goes from parents to children
    revert e
    apply parent_induction
    intro e he ih _
    cases hparent : s.parent? e with
    | none =>
      rw [ancestors_of_top he hparent]
      exact not_isParent_of_parent? he hparent
    | some parent =>
      have hmem := parent?_mem hparent
      rw [ancestors_of_parent? he hparent]
      exact ⟨hmem, isParent_of_parent? he hparent,
        ih parent hparent (declares_singleton.mpr ⟨parent, hmem, rfl⟩)⟩
  · -- a name that is not declared has no ancestors, and nothing links it to a parent
    rw [ancestors_of_not_declares hdeclared]
    exact fun parent hlink => hdeclared hlink.declares_child

theorem nodup_names_ancestors (s : Schema) (name : String) :
    ((s.ancestors name).map (·.name)).Nodup := by
  by_cases hdeclared : s.Declares [name]
  · obtain ⟨e, he, rfl⟩ := declares_singleton.mp hdeclared
    rw [ancestors, entity?_of_mem he]
    refine List.Nodup.map_on ?_ (List.nodup_cons.mp (nodup_cons_climb he)).2
    -- entities of a schema with one name are one entity
    intro a ha b hb hname
    exact List.inj_on_of_nodup_map s.nodup_names (mem_of_mem_climb ha) (mem_of_mem_climb hb) hname
  · rw [ancestors_of_not_declares hdeclared]
    exact List.nodup_nil

/-! ## §2 Depth -/

theorem IsParent.depth_eq {parent child : String} (h : s.IsParent parent child) :
    s.depth child = s.depth parent + 1 := by
  obtain ⟨e, he, p, -, rfl, rfl, hparent⟩ := exists_parent?_of_isParent h
  rw [depth, ancestors_of_parent? he hparent, List.length_cons, depth]

theorem depth_lt_length {name : String} (h : s.Declares [name]) :
    s.depth name < s.entities.length := by
  obtain ⟨e, he, rfl⟩ := declares_singleton.mp h
  rw [depth, ancestors, entity?_of_mem he]
  exact length_climb_lt he

namespace AtOrAbove

variable {a b : String}

theorem depth_le (h : s.AtOrAbove a b) : s.depth a ≤ s.depth b := by
  -- each link goes one level down
  induction h with
  | refl => exact Nat.le_refl _
  | tail _ hlink ih =>
    rw [hlink.depth_eq]
    exact Nat.le_succ_of_le ih

theorem exists_isParent_of_ne (h : s.AtOrAbove a b) (hne : a ≠ b) :
    ∃ parent, s.AtOrAbove a parent ∧ s.IsParent parent b := by
  rcases Relation.ReflTransGen.cases_tail_iff _ _ _ |>.mp h with heq | hlast
  · exact absurd heq.symm hne
  · exact hlast

theorem depth_lt_of_ne (h : s.AtOrAbove a b) (hne : a ≠ b) : s.depth a < s.depth b := by
  obtain ⟨parent, habove, hlink⟩ := h.exists_isParent_of_ne hne
  rw [hlink.depth_eq]
  exact Nat.lt_succ_of_le habove.depth_le

/-- Of two different entities one above the other, both are declared. -/
theorem declares_of_ne (h : s.AtOrAbove a b) (hne : a ≠ b) :
    s.Declares [a] ∧ s.Declares [b] := by
  obtain ⟨parent, -, hlink⟩ := h.exists_isParent_of_ne hne
  exact ⟨h.declares hlink.declares_child, hlink.declares_child⟩

end AtOrAbove

/-! ## §3 Ancestors and lineages -/

/-- Membership in a lineage, for whatever name. -/
theorem mem_lineage {name : String} {a : Entity} :
    a ∈ s.lineage name ↔ a ∈ s.entities ∧ s.AtOrAbove a.name name := by
  by_cases hdeclared : s.Declares [name]
  · obtain ⟨e, he, rfl⟩ := declares_singleton.mp hdeclared
    -- the lineage is made of entities of the schema, so that a name determines its member
    have hsub : ∀ x ∈ s.lineage e.name, x ∈ s.entities := by
      intro x hx
      rw [lineage, entity?_of_mem he, ancestors, entity?_of_mem he] at hx
      rcases List.mem_cons.mp hx with rfl | hx
      · exact he
      · exact mem_of_mem_climb hx
    constructor
    · intro ha
      exact ⟨hsub a ha, (mem_lineage_iff he).mp ⟨a, ha, rfl⟩⟩
    · rintro ⟨ha, habove⟩
      obtain ⟨b, hb, hname⟩ := (mem_lineage_iff he).mpr habove
      obtain rfl := List.inj_on_of_nodup_map s.nodup_names (hsub b hb) ha hname
      exact hb
  · rw [lineage_of_not_declares hdeclared]
    simp only [List.not_mem_nil, false_iff, not_and]
    -- an entity would be above a name that no entity has
    intro ha habove
    by_cases hne : a.name = name
    · exact hdeclared (declares_singleton.mpr ⟨a, ha, hne⟩)
    · exact hdeclared (habove.declares_of_ne hne).2

theorem declares_of_mem_lineage {name : String} {a : Entity} (h : a ∈ s.lineage name) :
    s.Declares [name] := by
  by_contra hdeclared
  rw [lineage_of_not_declares hdeclared] at h
  exact absurd h List.not_mem_nil

/-- The ancestors are what lies strictly above. -/
theorem mem_names_ancestors {ancestor name : String} :
    ancestor ∈ (s.ancestors name).map (·.name) ↔ s.AtOrAbove ancestor name ∧ ancestor ≠ name := by
  by_cases hdeclared : s.Declares [name]
  · obtain ⟨e, he, rfl⟩ := declares_singleton.mp hdeclared
    rw [← mem_lineage_iff he, lineage_of_mem he, List.mem_map]
    constructor
    · rintro ⟨a, ha, rfl⟩
      -- what is strictly above comes earlier in the order of the schema
      refine ⟨⟨a, List.mem_cons_of_mem _ ha, rfl⟩, fun hname => ?_⟩
      rw [ancestors, entity?_of_mem he] at ha
      exact (rank_lt_of_mem_climb he ha).ne (congrArg s.rank hname)
    · rintro ⟨⟨a, ha, rfl⟩, hne⟩
      -- the first of the lineage is the entity itself
      rcases List.mem_cons.mp ha with rfl | ha
      · exact absurd rfl hne
      · exact ⟨a, ha, rfl⟩
  · rw [ancestors_of_not_declares hdeclared]
    simp only [List.map_nil, List.not_mem_nil, false_iff, not_and, not_not]
    intro habove
    by_contra hne
    exact hdeclared (habove.declares_of_ne hne).2

/-! ## §4 Descendants -/

theorem above_of_reaches {target : String} {fuel : Nat} {name : String}
    (h : s.reaches target fuel name = true) : s.AtOrAbove name target := by
  induction fuel generalizing name with
  | zero =>
    obtain rfl : name = target := by simpa [reaches] using h
    exact .refl name
  | succ fuel ih =>
    rw [reaches, Bool.or_eq_true, List.any_eq_true] at h
    -- the descent is at its target, or goes on with a child from which the target is reached
    rcases h with heq | ⟨child, hchild, hreaches⟩
    · obtain rfl : name = target := by simpa using heq
      exact .refl name
    · rw [children, List.mem_filter, beq_iff_eq] at hchild
      exact AtOrAbove.trans (.of_isParent ⟨child, hchild.1, rfl, hchild.2⟩) (ih hreaches)

/-- A descent meets what lies below, if its fuel is not less than the difference in depth. -/
theorem reaches_of_above {name target : String} (h : s.AtOrAbove name target) {fuel : Nat}
    (hfuel : s.depth target ≤ s.depth name + fuel) : s.reaches target fuel name = true := by
  -- the induction is from the target upwards, and each level takes one from the fuel
  induction h using Relation.ReflTransGen.head_induction_on generalizing fuel with
  | refl => cases fuel <;> simp [reaches]
  | @head name child hlink hbelow ih =>
    have hdepth := hlink.depth_eq
    have hle : s.depth child ≤ s.depth target := AtOrAbove.depth_le hbelow
    cases fuel with
    | zero => omega
    | succ fuel =>
      -- the next entity on the way is among the children
      obtain ⟨e, he, rfl, hparent⟩ := hlink
      rw [reaches, Bool.or_eq_true, List.any_eq_true]
      refine .inr ⟨e, ?_, ih (by omega)⟩
      rw [children, List.mem_filter, beq_iff_eq]
      exact ⟨he, hparent⟩

theorem isDescendant_iff {name ancestor : String} :
    s.isDescendant name ancestor = true ↔ s.AtOrAbove ancestor name ∧ ancestor ≠ name := by
  unfold isDescendant
  simp only [Bool.and_eq_true, bne_iff_ne]
  constructor
  · rintro ⟨⟨⟨hne, -⟩, -⟩, hreaches⟩
    exact ⟨above_of_reaches hreaches, hne.symm⟩
  · rintro ⟨habove, hne⟩
    obtain ⟨hancestor, hname⟩ := habove.declares_of_ne hne
    -- the number of entities is fuel enough, as no entity is as deep as that
    have hdepth := depth_lt_length hname
    obtain ⟨a, ha, rfl⟩ := declares_singleton.mp hancestor
    obtain ⟨e, he, rfl⟩ := declares_singleton.mp hname
    rw [entity?_of_mem ha, entity?_of_mem he]
    exact ⟨⟨⟨hne.symm, rfl⟩, rfl⟩, reaches_of_above habove (by omega)⟩

/-! ## §5 Paths -/

/-- A list of entities leads down from one to another, from parent to child, one for each level of
depth. -/
structure IsWayDown (s : Schema) (ancestor name : String) (path : List Entity) : Prop where
  starts : path.head?.map (·.name) = some ancestor
  ends : path.getLast?.map (·.name) = some name
  links : path.IsChain fun upper lower => lower.parent = some upper.name
  declared : path ⊆ s.entities
  depth_le : s.depth ancestor ≤ s.depth name
  length_eq : path.length = s.depth name - s.depth ancestor + 1

theorem IsWayDown.refl {e : Entity} (he : e ∈ s.entities) : s.IsWayDown e.name e.name [e] where
  starts := rfl
  ends := rfl
  links := List.isChain_singleton e
  declared := by simpa using he
  depth_le := Nat.le_refl _
  length_eq := by rw [Nat.sub_self, List.length_singleton]

/-- A way down to the parent goes on to the child. -/
theorem IsWayDown.step {ancestor : String} {path : List Entity} {e parent : Entity}
    (he : e ∈ s.entities) (hparent : s.parent? e = some parent)
    (h : s.IsWayDown ancestor parent.name path) : s.IsWayDown ancestor e.name (path ++ [e]) := by
  have hdepth := (isParent_of_parent? he hparent).depth_eq
  have hname : e.parent = some parent.name := by
    obtain ⟨name, hname, hfound⟩ := Option.bind_eq_some_iff.mp hparent
    rw [hname, (mem_entities_of_entity? hfound).2]
  refine ⟨?_, ?_, ?_, ?_, ?_, ?_⟩
  · obtain ⟨first, hfirst, hstarts⟩ := Option.map_eq_some_iff.mp h.starts
    rw [List.head?_append, hfirst, Option.some_or, Option.map_some, hstarts]
  · rw [List.getLast?_append, List.getLast?_singleton, Option.some_or, Option.map_some]
  · rw [List.isChain_append]
    refine ⟨h.links, List.isChain_singleton e, ?_⟩
    -- the last of the path is the parent
    intro last hlast lower hlower
    obtain rfl : e = lower := by simpa using hlower
    have hends := h.ends
    rw [hlast, Option.map_some] at hends
    rw [hname, Option.some.inj hends]
  · exact List.append_subset.mpr ⟨h.declared, by simpa using he⟩
  · have hle := h.depth_le
    omega
  · have hle := h.depth_le
    rw [List.length_append, List.length_singleton, h.length_eq]
    omega

theorem isWayDown_of_pathFrom? {top : String} {fuel : Nat} {e : Entity} {path : List Entity}
    (he : e ∈ s.entities) (h : s.pathFrom? top fuel e = some path) :
    s.IsWayDown top e.name path := by
  induction fuel generalizing e path with
  | zero => exact absurd h (by simp [pathFrom?])
  | succ fuel ih =>
    unfold pathFrom? at h
    split at h
    · -- the search has arrived at the top
      rename_i htop
      obtain rfl := Option.some.inj h
      obtain rfl : e.name = top := by simpa using htop
      exact .refl he
    · split at h
      · -- it goes on from the parent, and the entity comes behind what is found there
        rename_i parent hparent
        obtain ⟨above, habove, rfl⟩ := Option.map_eq_some_iff.mp h
        exact (ih (parent?_mem hparent) habove).step he hparent
      · exact absurd h (by simp)

/-- A path is a search upwards between two different entities. -/
theorem path?_eq_some_iff {ancestor name : String} {path : List Entity} :
    s.path? ancestor name = some path ↔ ancestor ≠ name ∧
      ∃ e ∈ s.entities, e.name = name ∧
        s.pathFrom? ancestor s.entities.length e = some path := by
  unfold path?
  constructor
  · intro h
    split at h
    · rename_i e he
      obtain ⟨hmem, hname⟩ := mem_entities_of_entity? he
      split_ifs at h with heq
      exact ⟨by simpa using heq, e, hmem, hname, h⟩
    · exact absurd h (by simp)
  · rintro ⟨hne, e, he, rfl, hpath⟩
    rw [entity?_of_mem he]
    simpa [hne] using hpath

theorem isWayDown_of_path? {ancestor name : String} {path : List Entity}
    (h : s.path? ancestor name = some path) : s.IsWayDown ancestor name path := by
  obtain ⟨-, e, he, rfl, hpath⟩ := path?_eq_some_iff.mp h
  exact isWayDown_of_pathFrom? he hpath

theorem path?_isSome_iff {ancestor name : String} :
    (s.path? ancestor name).isSome = true ↔ s.AtOrAbove ancestor name ∧ ancestor ≠ name := by
  rw [Option.isSome_iff_exists]
  constructor
  · -- a path that is found is a way from one to the other
    rintro ⟨path, hpath⟩
    obtain ⟨hne, e, he, rfl, hfrom⟩ := path?_eq_some_iff.mp hpath
    obtain ⟨-, -, hdescends⟩ := descends_of_pathFrom? he hfrom
    exact ⟨hdescends.above, hne⟩
  · -- the number of entities is fuel enough to find one
    rintro ⟨habove, hne⟩
    obtain ⟨e, he, rfl⟩ := declares_singleton.mp (habove.declares_of_ne hne).2
    obtain ⟨path, hpath⟩ := exists_pathFrom? e he habove _ (length_lineage_le he)
    exact ⟨path, path?_eq_some_iff.mpr ⟨hne, e, he, rfl, hpath⟩⟩

/-! ## §6 Common ancestors -/

/-- An entity is at or above both of two others, and none that is lies deeper. -/
structure IsDeepestCommon (s : Schema) (a b : String) (m : Entity) : Prop where
  left : m ∈ s.lineage a
  right : m ∈ s.lineage b
  deepest : ∀ c ∈ s.lineage a, c ∈ s.lineage b → s.depth c.name ≤ s.depth m.name

theorem IsDeepestCommon.symm {a b : String} {m : Entity} (h : s.IsDeepestCommon a b m) :
    s.IsDeepestCommon b a m :=
  ⟨h.right, h.left, fun c hb ha => h.deepest c ha hb⟩

theorem commonAncestor?_eq_none_of_not_declares {a b : String}
    (h : ¬ (s.Declares [a] ∧ s.Declares [b])) : s.commonAncestor? a b = none := by
  unfold commonAncestor?
  by_cases hb : s.Declares [b]
  · rw [lineage_of_not_declares fun ha => h ⟨ha, hb⟩]
    simp
  · rw [lineage_of_not_declares hb, List.find?_nil]

theorem isDeepestCommon_of_commonAncestor? {a b : String} {m : Entity}
    (h : s.commonAncestor? a b = some m) : s.IsDeepestCommon a b m := by
  by_cases hdeclared : s.Declares [a] ∧ s.Declares [b]
  · obtain ⟨ea, ha, rfl⟩ := declares_singleton.mp hdeclared.1
    obtain ⟨eb, hb, rfl⟩ := declares_singleton.mp hdeclared.2
    have hspec := commonAncestor?_spec ha hb
    rw [h] at hspec
    obtain ⟨hm, hmeeting⟩ := hspec
    -- the nearest common entity lies at or below every other one, so none is deeper
    refine ⟨mem_lineage.mpr ⟨hm, hmeeting.left⟩, mem_lineage.mpr ⟨hm, hmeeting.right⟩, ?_⟩
    intro c hca hcb
    have habove := hmeeting.nearest c.name (mem_lineage.mp hca).2 (mem_lineage.mp hcb).2
    exact habove.depth_le
  · rw [commonAncestor?_eq_none_of_not_declares hdeclared] at h
    exact absurd h (by simp)

theorem commonAncestor?_eq_none_iff {a b : String} :
    s.commonAncestor? a b = none ↔ ∀ c ∈ s.lineage a, c ∉ s.lineage b := by
  constructor
  · intro h c hca hcb
    -- the search goes through the lineage of the second for a member of that of the first
    rw [commonAncestor?, List.find?_eq_none] at h
    exact h c hcb (List.any_eq_true.mpr ⟨c, hca, by simp⟩)
  · intro h
    rw [Option.eq_none_iff_forall_ne_some]
    intro m hm
    have hcommon := isDeepestCommon_of_commonAncestor? hm
    exact h m hcommon.left hcommon.right

/-- The common ancestor is the deepest one. -/
theorem commonAncestor?_eq_some_iff {a b : String} {m : Entity} :
    s.commonAncestor? a b = some m ↔ s.IsDeepestCommon a b m := by
  refine ⟨isDeepestCommon_of_commonAncestor?, fun h => ?_⟩
  cases hfound : s.commonAncestor? a b with
  | none => exact absurd h.right (commonAncestor?_eq_none_iff.mp hfound m h.left)
  | some found =>
    have hcommon := isDeepestCommon_of_commonAncestor? hfound
    obtain ⟨hm, hma⟩ := mem_lineage.mp h.left
    have hf := (mem_lineage.mp hcommon.left).1
    obtain ⟨ea, ha, rfl⟩ := declares_singleton.mp (declares_of_mem_lineage h.left)
    obtain ⟨eb, hb, rfl⟩ := declares_singleton.mp (declares_of_mem_lineage h.right)
    have hspec := commonAncestor?_spec ha hb
    rw [hfound] at hspec
    have habove := hspec.2.nearest m.name hma (mem_lineage.mp h.right).2
    -- neither of the two is deeper than the other
    by_contra hne
    have hnames : m.name ≠ found.name := fun hname =>
      hne (congrArg some (List.inj_on_of_nodup_map s.nodup_names hf hm hname.symm))
    have hlt := habove.depth_lt_of_ne hnames
    have hle := h.deepest found hcommon.left hcommon.right
    omega

theorem commonAncestor?_comm (s : Schema) (a b : String) :
    s.commonAncestor? a b = s.commonAncestor? b a := by
  apply Option.ext
  intro m
  rw [commonAncestor?_eq_some_iff, commonAncestor?_eq_some_iff]
  exact ⟨.symm, .symm⟩

/-! ## §7 Trees -/

/-- The entity at which following parents ends, which may be the entity itself. -/
def top? (s : Schema) (name : String) : Option Entity :=
  (s.lineage name).getLast?

theorem IsParent.top?_eq {parent child : String} (h : s.IsParent parent child) :
    s.top? child = s.top? parent := by
  obtain ⟨e, he, p, hp, rfl, rfl, hparent⟩ := exists_parent?_of_isParent h
  rw [top?, lineage_of_parent? he hparent, top?, lineage_of_mem hp, List.getLast?_cons_cons]

theorem AtOrAbove.top?_eq {a b : String} (h : s.AtOrAbove a b) : s.top? b = s.top? a := by
  induction h with
  | refl => rfl
  -- the tops are the same at each link
  | tail _ hlink ih => rw [hlink.top?_eq, ih]

theorem exists_top? {name : String} (h : s.Declares [name]) :
    ∃ top ∈ s.lineage name, s.top? name = some top := by
  obtain ⟨e, he, rfl⟩ := declares_singleton.mp h
  rw [top?, lineage_of_mem he]
  exact ⟨_, List.getLast_mem (List.cons_ne_nil _ _), List.getLast?_eq_getLast_of_ne_nil _⟩

theorem areRelated_eq_true_iff {a b : String} :
    s.areRelated a b = true ↔ a ≠ b ∧ ∃ c ∈ s.lineage a, c ∈ s.lineage b := by
  have hcommon : (s.commonAncestor? a b).isSome = true ↔ ∃ c ∈ s.lineage a, c ∈ s.lineage b := by
    rw [Option.isSome_iff_ne_none, ne_eq, commonAncestor?_eq_none_iff]
    push Not
    rfl
  rw [areRelated, Bool.and_eq_true, bne_iff_ne, hcommon]

/-- Different declared entities are related if and only if their trees have the same top. -/
theorem areRelated_iff_top? {a b : String} (hne : a ≠ b) (ha : s.Declares [a])
    (hb : s.Declares [b]) : s.areRelated a b = true ↔ s.top? a = s.top? b := by
  rw [areRelated_eq_true_iff]
  constructor
  · -- what is at or above both has the top of both
    rintro ⟨-, c, hca, hcb⟩
    rw [(mem_lineage.mp hca).2.top?_eq, (mem_lineage.mp hcb).2.top?_eq]
  · intro htop
    obtain ⟨top, hmem, htopa⟩ := exists_top? ha
    obtain ⟨top', hmem', htopb⟩ := exists_top? hb
    -- the common top itself is at or above both
    obtain rfl : top = top' := Option.some.inj (htopa.symm.trans (htop.trans htopb))
    exact ⟨hne, top, hmem, hmem'⟩

theorem declares_of_areRelated {a b : String} (h : s.areRelated a b = true) :
    s.Declares [a] ∧ s.Declares [b] := by
  by_contra hdeclared
  rw [areRelated, commonAncestor?_eq_none_of_not_declares hdeclared] at h
  simp at h

theorem areRelated_comm (s : Schema) (a b : String) : s.areRelated a b = s.areRelated b a := by
  rw [areRelated, areRelated, commonAncestor?_comm, bne_comm]

theorem areRelated_trans {a b c : String} (hab : s.areRelated a b = true)
    (hbc : s.areRelated b c = true) (hne : a ≠ c) : s.areRelated a c = true := by
  -- both pairs have the same top
  obtain ⟨ha, hb⟩ := declares_of_areRelated hab
  obtain ⟨-, hc⟩ := declares_of_areRelated hbc
  have hab' := (areRelated_iff_top? (areRelated_eq_true_iff.mp hab).1 ha hb).mp hab
  have hbc' := (areRelated_iff_top? (areRelated_eq_true_iff.mp hbc).1 hb hc).mp hbc
  exact (areRelated_iff_top? hne ha hc).mpr (hab'.trans hbc')

/-! ## §8 Agreement -/

/-- What is answered about the ancestors, the path, the common ancestor and the relatedness of two
names, declared or not, is about one and the same forest. -/
theorem walks_agree (s : Schema) (a d : String) :
    (s.IsParentChain d (s.ancestors d) ∧ ((s.ancestors d).map (·.name)).Nodup ∧
      s.depth d = (s.ancestors d).length ∧
      ∀ parent, s.IsParent parent d → s.depth d = s.depth parent + 1) ∧
    ((s.isDescendant d a = true ↔ a ∈ (s.ancestors d).map (·.name)) ∧
      (s.isDescendant d a = true ↔ (s.path? a d).isSome = true) ∧
      ∀ path, s.path? a d = some path → s.IsWayDown a d path) ∧
    (s.commonAncestor? a d = s.commonAncestor? d a ∧
      (∀ m, s.commonAncestor? a d = some m ↔ s.IsDeepestCommon a d m) ∧
      (s.commonAncestor? a d = none ↔ ∀ c ∈ s.lineage a, c ∉ s.lineage d)) ∧
    (s.areRelated a d = s.areRelated d a ∧
      (a ≠ d → s.Declares [a] → s.Declares [d] →
        (s.areRelated a d = true ↔ s.top? a = s.top? d)) ∧
      ∀ b, s.areRelated a b = true → s.areRelated b d = true → a ≠ d →
        s.areRelated a d = true) := by
  refine ⟨⟨?chain, ?nodup, rfl, ?depth⟩, ⟨?ancestors, ?paths, ?ways⟩, ⟨?comm, ?deepest, ?none⟩,
    ⟨?symmetric, ?tops, ?transitive⟩⟩
  case chain => exact s.isParentChain_ancestors d
  case nodup => exact s.nodup_names_ancestors d
  case depth => exact fun parent hlink => hlink.depth_eq
  case ancestors => rw [isDescendant_iff, mem_names_ancestors]
  case paths => rw [isDescendant_iff, path?_isSome_iff]
  case ways => exact fun path hpath => isWayDown_of_path? hpath
  case comm => exact s.commonAncestor?_comm a d
  case deepest => exact fun m => commonAncestor?_eq_some_iff
  case none => exact commonAncestor?_eq_none_iff
  case symmetric => exact s.areRelated_comm a d
  case tops => exact fun hne ha hd => areRelated_iff_top? hne ha hd
  case transitive => exact fun b hab hbd hne => areRelated_trans hab hbd hne

/-- Tissues lie two levels below events, and both are related to photos. -/
theorem walks_agree_survey :
    survey.depth "Tissue" = survey.depth "Sample" + 1 ∧
      (∃ path, survey.path? "Event" "Tissue" = some path ∧
        path.map (·.name) = ["Event", "Sample", "Tissue"] ∧
        survey.IsWayDown "Event" "Tissue" path) ∧
      survey.top? "Event" = survey.top? "Tissue" ∧ survey.areRelated "Event" "Tissue" = true := by
  obtain ⟨⟨-, -, -, hdepth⟩, ⟨-, -, hways⟩, -, -, htops, htrans⟩ :=
    walks_agree survey "Event" "Tissue"
  have hlink : survey.IsParent "Sample" "Tissue" := by
    unfold IsParent
    decide
  have hevent : survey.Declares ["Event"] := by
    unfold Declares
    decide
  have htissue : survey.Declares ["Tissue"] := by
    unfold Declares
    decide
  have hrelated : survey.areRelated "Event" "Tissue" = true :=
    htrans "Photo" (by decide) (by decide) (by decide)
  exact ⟨hdepth "Sample" hlink, ⟨_, rfl, rfl, hways _ rfl⟩,
    (htops (by decide) hevent htissue).mp hrelated, hrelated⟩

end EntityQuery.Schema
