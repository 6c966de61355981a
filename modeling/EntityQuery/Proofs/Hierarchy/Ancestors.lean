import Mathlib.Data.List.Perm.Subperm
import Mathlib.Logic.Relation
import EntityQuery.Proofs.Hierarchy.Order

/-!
# Ancestors

What walks through the hierarchy find, said by the parent links alone: a lineage holds the entity
and its ancestors, the common ancestor of two entities is the nearest one, and there is a way down
from each ancestor. Walks are bounded by the number of entities; since ranks fall along a climb, no
entity is met twice and the bound is never reached.
-/

namespace EntityQuery.Schema

variable {s : Schema}

/-! ## §1 Parent links -/

/-- A parent link between the entities with two names. -/
def IsParent (s : Schema) (parent child : String) : Prop :=
  ∃ e ∈ s.entities, e.name = child ∧ e.parent = some parent

/-- One entity is the other or an ancestor of it. -/
def AtOrAbove (s : Schema) (upper lower : String) : Prop :=
  Relation.ReflTransGen s.IsParent upper lower

theorem IsParent.rank_lt {parent child : String} (h : s.IsParent parent child) :
    s.rank parent < s.rank child := by
  obtain ⟨e, he, rfl, hparent⟩ := h
  exact rank_parent_lt he hparent

theorem IsParent.ne {parent child : String} (h : s.IsParent parent child) : parent ≠ child := by
  rintro rfl
  exact Nat.lt_irrefl _ h.rank_lt

theorem IsParent.unique {parent parent' child : String} (h : s.IsParent parent child)
    (h' : s.IsParent parent' child) : parent = parent' := by
  obtain ⟨e, he, rfl, hparent⟩ := h
  obtain ⟨e', he', hname, hparent'⟩ := h'
  -- names are distinct, so both links start from the same declaration
  obtain rfl : e' = e := List.inj_on_of_nodup_map s.nodup_names he' he hname
  exact Option.some.inj (hparent.symm.trans hparent')

theorem IsParent.exists_mem {parent child : String} (h : s.IsParent parent child) :
    ∃ e ∈ s.entities, e.name = parent := by
  obtain ⟨e, he, -, hparent⟩ := h
  exact exists_parent he hparent

@[simp] theorem declares_singleton {name : String} :
    s.Declares [name] ↔ ∃ e ∈ s.entities, e.name = name := by
  simp [Declares]

theorem isParent_of_parent? {e parent : Entity} (he : e ∈ s.entities)
    (h : s.parent? e = some parent) : s.IsParent parent.name e.name := by
  obtain ⟨name, hname, hparent⟩ := Option.bind_eq_some_iff.mp h
  obtain ⟨-, rfl⟩ := mem_entities_of_entity? hparent
  exact ⟨e, he, rfl, hname⟩

theorem not_isParent_of_parent? {e : Entity} (he : e ∈ s.entities) (h : s.parent? e = none)
    (parent : String) : ¬ s.IsParent parent e.name := by
  rintro ⟨e', he', hname, hparent⟩
  obtain rfl : e' = e := List.inj_on_of_nodup_map s.nodup_names he' he hname
  obtain ⟨p, hp, rfl⟩ := exists_parent he hparent
  rw [parent?, hparent, Option.bind_some, entity?_of_mem hp] at h
  exact absurd h (by simp)

/-- What holds of an entity if it holds of its parent holds of all entities. -/
theorem parent_induction {motive : Entity → Prop}
    (step : ∀ e ∈ s.entities, (∀ parent, s.parent? e = some parent → motive parent) → motive e) :
    ∀ e ∈ s.entities, motive e := by
  -- on the rank, which is smaller for a parent
  have hrank : ∀ n, ∀ e ∈ s.entities, s.rank e.name = n → motive e := by
    intro n
    induction n using Nat.strongRecOn with
    | _ n ih =>
      rintro e he rfl
      apply step e he
      intro parent hparent
      exact ih _ (isParent_of_parent? he hparent).rank_lt parent (parent?_mem hparent) rfl
  exact fun e he => hrank _ e he rfl

namespace AtOrAbove

variable {a b c : String}

theorem refl (a : String) : s.AtOrAbove a a :=
  Relation.ReflTransGen.refl

theorem trans (h : s.AtOrAbove a b) (h' : s.AtOrAbove b c) : s.AtOrAbove a c :=
  Relation.ReflTransGen.trans h h'

theorem of_isParent (h : s.IsParent a b) : s.AtOrAbove a b :=
  .single h

theorem rank_le (h : s.AtOrAbove a b) : s.rank a ≤ s.rank b := by
  induction h with
  | refl => exact Nat.le_refl _
  | tail _ hlink ih => exact Nat.le_trans ih (Nat.le_of_lt hlink.rank_lt)

/-- An ancestor is an ancestor of the parent. -/
theorem iff_of_isParent {parent child : String} (h : s.IsParent parent child) :
    s.AtOrAbove a child ↔ a = child ∨ s.AtOrAbove a parent := by
  unfold AtOrAbove
  rw [Relation.ReflTransGen.cases_tail_iff]
  constructor
  · rintro (heq | ⟨parent', habove, h'⟩)
    · exact .inl heq.symm
    · exact .inr (h.unique h' ▸ habove)
  · rintro (heq | habove)
    · exact .inl heq.symm
    · exact .inr ⟨parent, habove, h⟩

theorem iff_of_top {top : String} (h : ∀ parent, ¬ s.IsParent parent top) :
    s.AtOrAbove a top ↔ a = top := by
  unfold AtOrAbove
  rw [Relation.ReflTransGen.cases_tail_iff]
  constructor
  · rintro (heq | ⟨parent, -, hlink⟩)
    · exact heq.symm
    · exact absurd hlink (h parent)
  · exact fun heq => .inl heq.symm

theorem not_of_isParent (h : s.IsParent a b) : ¬ s.AtOrAbove b a :=
  fun habove => Nat.not_le_of_lt h.rank_lt habove.rank_le

theorem declares (h : s.AtOrAbove a b) (hb : s.Declares [b]) : s.Declares [a] := by
  rcases Relation.ReflTransGen.cases_head h with rfl | ⟨child, hlink, -⟩
  · exact hb
  · exact declares_singleton.mpr hlink.exists_mem

theorem antisymm (h : s.AtOrAbove a b) (h' : s.AtOrAbove b a) : a = b := by
  rcases Relation.ReflTransGen.cases_tail_iff _ _ _ |>.mp h with heq | ⟨c, hc, hlink⟩
  · exact heq.symm
  · -- the parent of `b` would lie below `b`
    exact absurd (h'.trans hc) (not_of_isParent hlink)

end AtOrAbove

/-! ## §2 Climbing -/

theorem mem_of_mem_climb {fuel : Nat} {e a : Entity} (h : a ∈ s.climb fuel e) :
    a ∈ s.entities := by
  induction fuel generalizing e with
  | zero => exact absurd h List.not_mem_nil
  | succ fuel ih =>
    -- the first entity of a climb is the parent, the others are climbed from there
    unfold climb at h
    split at h
    · rename_i parent hparent
      rcases List.mem_cons.mp h with rfl | h
      · exact parent?_mem hparent
      · exact ih h
    · exact absurd h List.not_mem_nil

/-- Ranks fall along a climb. -/
theorem rank_lt_of_mem_climb {fuel : Nat} {e a : Entity} (he : e ∈ s.entities)
    (h : a ∈ s.climb fuel e) : s.rank a.name < s.rank e.name := by
  induction fuel generalizing e with
  | zero => exact absurd h List.not_mem_nil
  | succ fuel ih =>
    unfold climb at h
    split at h
    · rename_i parent hparent
      have hlt := (isParent_of_parent? he hparent).rank_lt
      rcases List.mem_cons.mp h with rfl | h
      · exact hlt
      · exact Nat.lt_trans (ih (parent?_mem hparent) h) hlt
    · exact absurd h List.not_mem_nil

theorem nodup_cons_climb {fuel : Nat} {e : Entity} (he : e ∈ s.entities) :
    (e :: s.climb fuel e).Nodup := by
  induction fuel generalizing e with
  | zero => simp [climb]
  | succ fuel ih =>
    rw [List.nodup_cons]
    -- the entity has a larger rank than whatever is climbed from it
    refine ⟨fun h => Nat.lt_irrefl _ (rank_lt_of_mem_climb he h), ?_⟩
    unfold climb
    split
    · exact ih (parent?_mem ‹_›)
    · exact List.nodup_nil

/-- A climb is shorter than the list of entities, as it meets none of them twice. -/
theorem length_climb_lt {fuel : Nat} {e : Entity} (he : e ∈ s.entities) :
    (s.climb fuel e).length < s.entities.length := by
  have hsubset : e :: s.climb fuel e ⊆ s.entities := by
    intro a ha
    rcases List.mem_cons.mp ha with rfl | ha
    · exact he
    · exact mem_of_mem_climb ha
  exact ((nodup_cons_climb he).subperm hsubset).length_le

/-- A climb that ends before its fuel does has reached the top. -/
theorem climb_succ_of_length_lt {fuel : Nat} {e : Entity} (h : (s.climb fuel e).length < fuel) :
    s.climb (fuel + 1) e = s.climb fuel e := by
  induction fuel generalizing e with
  | zero => exact absurd h (Nat.not_lt_zero _)
  | succ fuel ih =>
    rw [climb] at h ⊢
    rw [climb]
    -- a climb that stops early stops for want of a parent, whatever the fuel
    split at h
    · rw [ih (by simpa using h)]
    · rfl

/-- A lineage goes on with the lineage of the parent. -/
theorem lineage_of_parent? {e parent : Entity} (he : e ∈ s.entities)
    (h : s.parent? e = some parent) : s.lineage e.name = e :: s.lineage parent.name := by
  have hparent := parent?_mem h
  obtain ⟨fuel, hfuel⟩ : ∃ fuel, s.entities.length = fuel + 1 :=
    Nat.exists_eq_add_one.mpr (List.length_pos_of_mem he)
  -- one step has been made, and the fuel that is left is enough for the others
  have hlength := @length_climb_lt s (fuel + 1) e he
  rw [climb, h, List.length_cons, hfuel] at hlength
  simp only [lineage, ancestors, entity?_of_mem he, entity?_of_mem hparent, hfuel]
  rw [climb, h, climb_succ_of_length_lt (by simpa using hlength)]

theorem lineage_of_top {e : Entity} (he : e ∈ s.entities) (h : s.parent? e = none) :
    s.lineage e.name = [e] := by
  simp only [lineage, ancestors, entity?_of_mem he]
  cases s.entities.length with
  | zero => rfl
  | succ fuel => rw [climb, h]

/-- A lineage holds an entity and its ancestors. -/
theorem mem_lineage_iff {e : Entity} (he : e ∈ s.entities) {name : String} :
    (∃ a ∈ s.lineage e.name, a.name = name) ↔ s.AtOrAbove name e.name := by
  -- from the parents to their children, as the lineage is a path upwards
  revert e
  apply parent_induction
  intro e he ih
  cases h : s.parent? e with
  | none =>
    rw [lineage_of_top he h, AtOrAbove.iff_of_top (not_isParent_of_parent? he h)]
    simp [eq_comm]
  | some parent =>
    rw [lineage_of_parent? he h, AtOrAbove.iff_of_isParent (isParent_of_parent? he h), ← ih _ h]
    simp [eq_comm]

theorem exists_lineage_eq {e : Entity} (he : e ∈ s.entities) :
    ∃ above, s.lineage e.name = e :: above := by
  cases h : s.parent? e with
  | none => exact ⟨_, lineage_of_top he h⟩
  | some parent => exact ⟨_, lineage_of_parent? he h⟩

theorem length_lineage_le {e : Entity} (he : e ∈ s.entities) :
    (s.lineage e.name).length ≤ s.entities.length := by
  simp only [lineage, ancestors, entity?_of_mem he]
  exact length_climb_lt he

/-! ## §3 Two entities -/

/-- The nearest entity that is one or above it and also the other or above it. -/
structure IsMeeting (s : Schema) (meeting a b : String) : Prop where
  left : s.AtOrAbove meeting a
  right : s.AtOrAbove meeting b
  nearest : ∀ c, s.AtOrAbove c a → s.AtOrAbove c b → s.AtOrAbove c meeting

/-- Two entities of one tree. -/
def SameTree (s : Schema) (a b : String) : Prop :=
  ∃ c, s.AtOrAbove c a ∧ s.AtOrAbove c b

/-- An entity on the way between two others, both included: between one of them and the place
where they meet. -/
def OnPath (s : Schema) (a b name : String) : Prop :=
  ∃ meeting, s.IsMeeting meeting a b ∧ s.AtOrAbove meeting name ∧
    (s.AtOrAbove name a ∨ s.AtOrAbove name b)

theorem IsMeeting.unique {m m' a b : String} (h : s.IsMeeting m a b) (h' : s.IsMeeting m' a b) :
    m = m' :=
  (h'.nearest m h.left h.right).antisymm (h.nearest m' h'.left h'.right)

theorem IsMeeting.sameTree {meeting a b : String} (h : s.IsMeeting meeting a b) :
    s.SameTree a b :=
  ⟨meeting, h.left, h.right⟩

theorem OnPath.declares {a b name : String} (h : s.OnPath a b name) (ha : s.Declares [a])
    (hb : s.Declares [b]) : s.Declares [name] := by
  obtain ⟨-, -, -, hbelow⟩ := h
  rcases hbelow with hbelow | hbelow
  · exact hbelow.declares ha
  · exact hbelow.declares hb

section CommonAncestor

variable {a b : Entity}

theorem any_lineage_iff (ha : a ∈ s.entities) {name : String} :
    (s.lineage a.name).any (·.name == name) = true ↔ s.AtOrAbove name a.name := by
  rw [← mem_lineage_iff ha]
  simp

theorem commonAncestor?_of_above (ha : a ∈ s.entities) (hb : b ∈ s.entities)
    (h : s.AtOrAbove b.name a.name) : s.commonAncestor? a.name b.name = some b := by
  obtain ⟨above, habove⟩ := exists_lineage_eq hb
  rw [commonAncestor?, habove, List.find?_cons, (any_lineage_iff ha).mpr h]

theorem commonAncestor?_of_not_above (ha : a ∈ s.entities) (hb : b ∈ s.entities)
    (h : ¬ s.AtOrAbove b.name a.name) :
    s.commonAncestor? a.name b.name =
      (s.parent? b).bind fun parent => s.commonAncestor? a.name parent.name := by
  -- the search begins with the second entity, and that one does not qualify
  have hany := Bool.eq_false_iff.mpr ((any_lineage_iff ha).not.mpr h)
  unfold commonAncestor?
  cases hparent : s.parent? b with
  | none => rw [lineage_of_top hb hparent, List.find?_cons, hany, List.find?_nil, Option.bind_none]
  | some parent => rw [lineage_of_parent? hb hparent, List.find?_cons, hany, Option.bind_some]

/-- The search for a common ancestor finds the place where two entities meet, and nothing in
different trees. -/
theorem commonAncestor?_spec (ha : a ∈ s.entities) (hb : b ∈ s.entities) :
    match s.commonAncestor? a.name b.name with
    | some meeting => meeting ∈ s.entities ∧ s.IsMeeting meeting.name a.name b.name
    | none => ¬ s.SameTree a.name b.name := by
  revert b
  apply parent_induction
  intro b hb ih
  -- the second entity is the place where they meet, or they meet at or above its parent
  by_cases hmeet : s.AtOrAbove b.name a.name
  · rw [commonAncestor?_of_above ha hb hmeet]
    exact ⟨hb, hmeet, .refl _, fun c _ hc => hc⟩
  · rw [commonAncestor?_of_not_above ha hb hmeet]
    cases hparent : s.parent? b with
    -- above a top there is nothing that could be common
    | none =>
      rintro ⟨c, hca, hcb⟩
      rw [AtOrAbove.iff_of_top (not_isParent_of_parent? hb hparent)] at hcb
      exact hmeet (hcb ▸ hca)
    | some parent =>
      have hlink := isParent_of_parent? hb hparent
      -- what is common to both is not `b` and so lies above its parent
      have hup : ∀ c, s.AtOrAbove c a.name → s.AtOrAbove c b.name → s.AtOrAbove c parent.name := by
        intro c hca hcb
        rcases (AtOrAbove.iff_of_isParent hlink).mp hcb with rfl | hcb
        · exact absurd hca hmeet
        · exact hcb
      have hnext := ih parent hparent
      rw [Option.bind_some]
      split at hnext
      · obtain ⟨hmem, hmeeting⟩ := hnext
        exact ⟨hmem, hmeeting.left, hmeeting.right.trans (.of_isParent hlink),
          fun c hca hcb => hmeeting.nearest c hca (hup c hca hcb)⟩
      · rintro ⟨c, hca, hcb⟩
        exact hnext ⟨c, hca, hup c hca hcb⟩

/-- An entity lies on the path to itself. -/
theorem SameTree.onPath_right (ha : a ∈ s.entities) (hb : b ∈ s.entities)
    (h : s.SameTree a.name b.name) : s.OnPath a.name b.name b.name := by
  have hspec := commonAncestor?_spec ha hb
  split at hspec
  · exact ⟨_, hspec.2, hspec.2.right, .inr (.refl _)⟩
  · exact absurd h hspec

end CommonAncestor

/-! ## §4 Ways down -/

/-- The links of the way down from an ancestor to an entity. -/
inductive Descends (s : Schema) (ancestor : String) : String → List (Entity × Entity) → Prop
  | refl : Descends s ancestor ancestor []
  | step {path : List (Entity × Entity)} {parent child : Entity}
      (h : Descends s ancestor parent.name path) (hlink : s.IsParent parent.name child.name) :
      Descends s ancestor child.name (path ++ [(parent, child)])

namespace Descends

variable {ancestor name : String} {path : List (Entity × Entity)}

theorem above (h : s.Descends ancestor name path) : s.AtOrAbove ancestor name := by
  induction h with
  | refl => exact .refl ancestor
  | step _ hlink ih => exact ih.trans (.of_isParent hlink)

/-- The children on the way down are the entities on it without the first. -/
theorem exists_child_iff (h : s.Descends ancestor name path) {x : String} :
    (∃ link ∈ path, link.2.name = x) ↔
      s.AtOrAbove ancestor x ∧ s.AtOrAbove x name ∧ x ≠ ancestor := by
  induction h with
  | refl =>
    simp only [List.not_mem_nil, false_and, exists_false, false_iff]
    exact fun ⟨hle, hge, hne⟩ => hne (hge.antisymm hle)
  | @step path parent child h hlink ih =>
    simp only [List.mem_append, List.mem_singleton, or_and_right, exists_or, ih, exists_eq_left]
    -- only the child is new at the end of the way, and it lies below everything before it
    rw [AtOrAbove.iff_of_isParent hlink]
    have hchild := h.above.trans (.of_isParent hlink)
    constructor
    · rintro (⟨hle, hge, hne⟩ | rfl)
      · exact ⟨hle, .inr hge, hne⟩
      · exact ⟨hchild, .inl rfl, fun heq => AtOrAbove.not_of_isParent hlink (heq ▸ h.above)⟩
    · rintro ⟨hle, rfl | hge, hne⟩
      · exact .inr rfl
      · exact .inl ⟨hle, hge, hne⟩

/-- The parents on the way down are the entities on it without the last. -/
theorem exists_parent_iff (h : s.Descends ancestor name path) {x : String} :
    (∃ link ∈ path, link.1.name = x) ↔
      s.AtOrAbove ancestor x ∧ s.AtOrAbove x name ∧ x ≠ name := by
  induction h with
  | refl =>
    simp only [List.not_mem_nil, false_and, exists_false, false_iff]
    exact fun ⟨hle, hge, hne⟩ => hne (hge.antisymm hle)
  | @step path parent child h hlink ih =>
    simp only [List.mem_append, List.mem_singleton, or_and_right, exists_or, ih, exists_eq_left]
    -- what was last before, the parent, is now one of those with a child
    rw [AtOrAbove.iff_of_isParent hlink]
    constructor
    · rintro (⟨hle, hge, hne⟩ | rfl)
      · exact ⟨hle, .inr hge, fun heq => AtOrAbove.not_of_isParent hlink (heq ▸ hge)⟩
      · exact ⟨h.above, .inr (.refl _), hlink.ne⟩
    · rintro ⟨hle, hx, hne⟩
      by_cases heq : x = parent.name
      · exact .inr heq.symm
      · exact .inl ⟨hle, hx.resolve_left hne, heq⟩

end Descends

theorem links_append_pair (path : List Entity) (parent child : Entity) :
    links (path ++ [parent, child]) = links (path ++ [parent]) ++ [(parent, child)] := by
  induction path with
  | nil => rfl
  | cons first path ih =>
    cases path with
    | nil => rfl
    | cons second path => simpa [links] using ih

/-- A search upwards that arrives has found the way down. -/
theorem descends_of_pathFrom? {top : String} {fuel : Nat} {e : Entity} {path : List Entity}
    (he : e ∈ s.entities) (h : s.pathFrom? top fuel e = some path) :
    ∃ before, path = before ++ [e] ∧ s.Descends top e.name (links path) := by
  -- on the fuel: the path is found from its upper end, so the last link comes last
  induction fuel generalizing e path with
  | zero => exact absurd h (by simp [pathFrom?])
  | succ fuel ih =>
    unfold pathFrom? at h
    split at h
    · rename_i htop
      obtain rfl := Option.some.inj h
      obtain rfl : e.name = top := by simpa using htop
      exact ⟨[], rfl, .refl⟩
    · split at h
      · rename_i parent hparent
        obtain ⟨above, habove, rfl⟩ := Option.map_eq_some_iff.mp h
        obtain ⟨before, rfl, hdescends⟩ := ih (parent?_mem hparent) habove
        refine ⟨before ++ [parent], rfl, ?_⟩
        rw [List.append_assoc, List.singleton_append, links_append_pair]
        exact hdescends.step (isParent_of_parent? he hparent)
      · exact absurd h (by simp)

/-- A search upwards arrives at each ancestor, if its fuel lasts to the top. -/
theorem exists_pathFrom? {top : String} :
    ∀ e ∈ s.entities, s.AtOrAbove top e.name → ∀ fuel, (s.lineage e.name).length ≤ fuel →
      ∃ path, s.pathFrom? top fuel e = some path := by
  -- from the parents to their children, as a search upwards goes from an entity to its parent
  apply parent_induction
  intro e he ih htop fuel hfuel
  obtain ⟨above, habove⟩ := exists_lineage_eq he
  cases fuel with
  | zero => exact absurd hfuel (by simp [habove])
  | succ fuel =>
    unfold pathFrom?
    by_cases heq : e.name = top
    · exact ⟨[e], if_pos (by simpa using heq)⟩
    · rw [if_neg (by simpa using heq)]
      cases hparent : s.parent? e with
      | none =>
        -- a top is only below itself
        rw [AtOrAbove.iff_of_top (not_isParent_of_parent? he hparent)] at htop
        exact absurd htop.symm heq
      | some parent =>
        rw [AtOrAbove.iff_of_isParent (isParent_of_parent? he hparent)] at htop
        rw [lineage_of_parent? he hparent, List.length_cons] at hfuel
        obtain ⟨path, hpath⟩ := ih parent hparent (htop.resolve_left fun h => heq h.symm) fuel
          (Nat.le_of_succ_le_succ hfuel)
        exact ⟨path ++ [e], by simp [hpath]⟩

/-- From an ancestor there is a way down. -/
theorem exists_descent {ancestor : String} {e : Entity} (he : e ∈ s.entities)
    (h : s.AtOrAbove ancestor e.name) :
    ∃ path, s.descent ancestor e.name = .ok path ∧ s.Descends ancestor e.name path := by
  unfold descent
  by_cases heq : ancestor = e.name
  · exact ⟨[], if_pos heq, heq ▸ .refl⟩
  · -- the fuel of the search is the number of entities, and no lineage is longer
    obtain ⟨path, hpath⟩ := exists_pathFrom? e he h _ (length_lineage_le he)
    obtain ⟨before, -, hdescends⟩ := descends_of_pathFrom? he hpath
    have hfound : s.path? ancestor e.name = some path := by
      rw [path?, entity?_of_mem he]
      simpa [heq] using hpath
    exact ⟨links path, by rw [if_neg heq, hfound], hdescends⟩

end EntityQuery.Schema
