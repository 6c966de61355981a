import EntityQuery.Proofs.Hierarchy.Ancestors

/-!
# Larger schemas

A schema may hold the entities of another one among others and in any order. Since names are
distinct and parents are declared, both agree on these entities: on what a name stands for, on
parents, and so on all that is found by following parents. Only the fuel of the walks differs, and
it is enough in both.
-/

namespace EntityQuery.Schema

/-- One schema holds all entities of another one and has the same metadata. -/
structure Within (s s' : Schema) : Prop where
  entities : s.entities ⊆ s'.entities
  metadata : s'.metadata = s.metadata

variable {s s' : Schema}

/-! ## §1 Names and parents -/

namespace Within

variable {e : Entity}

theorem entity?_eq (h : s.Within s') {name : String} (he : s.entity? name = some e) :
    s'.entity? name = some e := by
  obtain ⟨hmem, rfl⟩ := mem_entities_of_entity? he
  exact entity?_of_mem (h.entities hmem)

/-- A parent is declared together with its child, so that no other entity can take its place. -/
theorem parent?_eq (h : s.Within s') (he : e ∈ s.entities) : s'.parent? e = s.parent? e := by
  unfold parent?
  cases hparent : e.parent with
  | none => rfl
  | some name =>
    obtain ⟨parent, hmem, rfl⟩ := exists_parent he hparent
    rw [Option.bind_some, Option.bind_some, entity?_of_mem hmem, entity?_of_mem (h.entities hmem)]

theorem length_le (h : s.Within s') : s.entities.length ≤ s'.entities.length := by
  have hnodup : s.entities.Nodup := s.nodup_names.of_map _
  exact (hnodup.subperm h.entities).length_le

/-! ## §2 Walks -/

theorem lineage_eq (h : s.Within s') :
    ∀ e ∈ s.entities, s'.lineage e.name = s.lineage e.name := by
  apply parent_induction
  intro e he ih
  have he' := h.entities he
  have hsame := h.parent?_eq he
  cases hparent : s.parent? e with
  | none => rw [lineage_of_top he hparent, lineage_of_top he' (hsame.trans hparent)]
  | some parent =>
    rw [lineage_of_parent? he hparent, lineage_of_parent? he' (hsame.trans hparent),
      ih parent hparent]

theorem depth_eq (h : s.Within s') (he : e ∈ s.entities) : s'.depth e.name = s.depth e.name := by
  -- a lineage is longer than the ancestors by the entity itself
  have hlineage := congrArg List.length (h.lineage_eq e he)
  simp only [lineage, entity?_of_mem he, entity?_of_mem (h.entities he)] at hlineage
  exact Nat.succ.inj hlineage

theorem commonAncestor?_eq (h : s.Within s') {a b : Entity} (ha : a ∈ s.entities)
    (hb : b ∈ s.entities) : s'.commonAncestor? a.name b.name = s.commonAncestor? a.name b.name := by
  rw [commonAncestor?, commonAncestor?, h.lineage_eq a ha, h.lineage_eq b hb]

theorem pathFrom?_eq (h : s.Within s') (top : String) (fuel : Nat) (he : e ∈ s.entities) :
    s'.pathFrom? top fuel e = s.pathFrom? top fuel e := by
  induction fuel generalizing e with
  | zero => rfl
  | succ fuel ih =>
    rw [pathFrom?, pathFrom?, h.parent?_eq he]
    cases hparent : s.parent? e with
    | none => rfl
    | some parent => simp only [ih (parent?_mem hparent)]

end Within

/-- A search upwards that arrives does so with more fuel, too. -/
theorem pathFrom?_of_le {top : String} {fuel fuel' : Nat} {e : Entity} {path : List Entity}
    (hle : fuel ≤ fuel') (h : s.pathFrom? top fuel e = some path) :
    s.pathFrom? top fuel' e = some path := by
  -- on the smaller amount of fuel, as the search ends within it
  induction fuel generalizing fuel' e path with
  | zero => exact absurd h (by simp [pathFrom?])
  | succ fuel ih =>
    obtain ⟨more, rfl⟩ := Nat.exists_eq_add_one.mpr (Nat.lt_of_lt_of_le (Nat.succ_pos _) hle)
    unfold pathFrom? at h ⊢
    split at h
    · rwa [if_pos ‹_›]
    · rw [if_neg ‹_›]
      split at h
      · obtain ⟨above, habove, hpath⟩ := Option.map_eq_some_iff.mp h
        rw [ih (Nat.le_of_succ_le_succ hle) habove, Option.map_some, hpath]
      · exact absurd h (by simp)

/-- A way down is found in the larger schema as well. -/
theorem Within.descent_eq (h : s.Within s') {ancestor : String} {e : Entity}
    (he : e ∈ s.entities) {path : List (Entity × Entity)}
    (hpath : s.descent ancestor e.name = .ok path) : s'.descent ancestor e.name = .ok path := by
  unfold descent at hpath ⊢
  split at hpath
  · rwa [if_pos ‹_›]
  · rename_i hne
    rw [if_neg hne]
    have hbeq : (ancestor == e.name) = false := by simpa using hne
    simp only [path?, entity?_of_mem he, entity?_of_mem (h.entities he), hbeq] at hpath ⊢
    split at hpath
    · rename_i found hfound
      obtain rfl := Except.ok.inj hpath
      -- the larger schema has more entities and so at least as much fuel
      have hlarger := pathFrom?_of_le h.length_le ((h.pathFrom?_eq ancestor _ he).trans hfound)
      simp only [hlarger, Bool.false_eq_true, if_false]
    · exact absurd hpath (by simp)

end EntityQuery.Schema
