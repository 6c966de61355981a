import EntityQuery.Proofs.SchemaNames

/-!
# The order of joins

Sorting under a strict order keeps every element once (`pairwise_sortDistinct`,
`mem_sortDistinct_iff`). Entities are sorted by their depth and then by their names, which tell all
entities apart.
-/

namespace EntityQuery

/-! ## §1 Sorted lists -/

/-- A strict order in which any two different elements can be compared. -/
structure IsStrictOrder {α : Type} (before : α → α → Bool) : Prop where
  irrefl : ∀ x, ¬ before x x
  trans : ∀ x y z, before x y → before y z → before x z
  connected : ∀ x y, ¬ before x y → ¬ before y x → x = y

section Sorting

variable {α : Type} {before : α → α → Bool}

theorem mem_insertSorted_iff (h : IsStrictOrder before) {x y : α} {ys : List α} :
    y ∈ insertSorted before x ys ↔ y = x ∨ y ∈ ys := by
  induction ys with
  | nil => simp [insertSorted]
  | cons z zs ih =>
    unfold insertSorted
    split
    · exact List.mem_cons
    · rename_i hxz
      split
      · rw [List.mem_cons, List.mem_cons, ih]
        exact or_left_comm
      · -- the element is there already
        obtain rfl := h.connected x z hxz ‹_›
        simp

theorem pairwise_insertSorted (h : IsStrictOrder before) {x : α} {ys : List α}
    (hys : ys.Pairwise (before · ·)) : (insertSorted before x ys).Pairwise (before · ·) := by
  induction ys with
  | nil => exact List.pairwise_singleton _ _
  | cons z zs ih =>
    obtain ⟨hz, hzs⟩ := List.pairwise_cons.mp hys
    unfold insertSorted
    split
    · rename_i hxz
      refine List.pairwise_cons.mpr ⟨?_, hys⟩
      intro y hy
      rcases List.mem_cons.mp hy with rfl | hy
      · exact hxz
      · exact h.trans x z y hxz (hz y hy)
    · split
      · rename_i hzx
        refine List.pairwise_cons.mpr ⟨?_, ih hzs⟩
        intro y hy
        rcases (mem_insertSorted_iff h).mp hy with rfl | hy
        · exact hzx
        · exact hz y hy
      · exact hys

/-- Sorting puts the elements of a list in ascending order. -/
theorem pairwise_sortDistinct (h : IsStrictOrder before) (xs : List α) :
    (sortDistinct before xs).Pairwise (before · ·) := by
  induction xs with
  | nil => exact List.Pairwise.nil
  | cons x xs ih => exact pairwise_insertSorted h ih

/-- Sorting keeps each element. -/
theorem mem_sortDistinct_iff (h : IsStrictOrder before) {x : α} {xs : List α} :
    x ∈ sortDistinct before xs ↔ x ∈ xs := by
  induction xs with
  | nil => exact Iff.rfl
  | cons y ys ih =>
    rw [List.mem_cons, ← ih]
    exact mem_insertSorted_iff h

theorem IsStrictOrder.nodup (h : IsStrictOrder before) {xs : List α}
    (hxs : xs.Pairwise (before · ·)) : xs.Nodup := by
  refine hxs.imp ?_
  rintro x y hxy rfl
  exact h.irrefl x hxy

end Sorting

/-- A linear order is a strict one. -/
theorem isStrictOrder_lt {α : Type} [LT α] [LE α] [DecidableLT α] [Std.IsLinearOrder α]
    [Std.LawfulOrderLT α] : IsStrictOrder fun a b : α => decide (a < b) where
  irrefl a := by
    simp [Std.lt_irrefl]
  trans a b c hab hbc := by
    rw [decide_eq_true_iff] at *
    exact Std.lt_trans hab hbc
  connected a b hab hba := by
    rw [decide_eq_true_iff, Std.not_lt] at *
    exact Std.le_antisymm hba hab

theorem mem_sortTexts_iff {text : String} {texts : List String} :
    text ∈ sortTexts texts ↔ text ∈ texts :=
  mem_sortDistinct_iff isStrictOrder_lt

/-! ## §2 Entities in order -/

namespace Schema

/-- The order of depth and name is a strict one. -/
theorem isStrictOrder_isBefore (s : Schema) : IsStrictOrder s.isBefore where
  irrefl a := by
    simp [isBefore]
  trans a b c := by
    simp only [isBefore, Bool.or_eq_true, Bool.and_eq_true, decide_eq_true_eq, beq_iff_eq]
    rintro (hab | ⟨hab, hlt⟩) (hbc | ⟨hbc, hlt'⟩)
    · exact .inl (Nat.lt_trans hab hbc)
    · exact .inl (hbc ▸ hab)
    · exact .inl (hab ▸ hbc)
    · exact .inr ⟨hab.trans hbc, String.lt_trans hlt hlt'⟩
  connected a b := by
    simp only [isBefore, Bool.or_eq_true, Bool.and_eq_true, decide_eq_true_eq, beq_iff_eq, not_or,
      not_and, Nat.not_lt]
    rintro ⟨hba, hnot⟩ ⟨hab, hnot'⟩
    have hdepth := Nat.le_antisymm hab hba
    -- entities of one depth are told apart by their names
    exact String.le_antisymm (String.not_lt.mp (hnot' hdepth.symm)) (String.not_lt.mp (hnot hdepth))

theorem mem_inOrder_iff (s : Schema) {name : String} {names : List String} :
    name ∈ s.inOrder names ↔ name ∈ names :=
  mem_sortDistinct_iff s.isStrictOrder_isBefore

theorem pairwise_inOrder (s : Schema) (names : List String) :
    (s.inOrder names).Pairwise (s.isBefore · ·) :=
  pairwise_sortDistinct s.isStrictOrder_isBefore names

theorem nodup_inOrder (s : Schema) (names : List String) : (s.inOrder names).Nodup :=
  s.isStrictOrder_isBefore.nodup (s.pairwise_inOrder names)

/-- There is only one way to put entities in order. -/
theorem eq_inOrder (s : Schema) {sorted names : List String}
    (hsorted : sorted.Pairwise (s.isBefore · ·))
    (hmem : ∀ name, name ∈ sorted ↔ name ∈ names) : sorted = s.inOrder names := by
  have hperm : sorted.Perm (s.inOrder names) := by
    rw [List.perm_ext_iff_of_nodup (s.isStrictOrder_isBefore.nodup hsorted) (s.nodup_inOrder names)]
    exact fun name => (hmem name).trans s.mem_inOrder_iff.symm
  refine hperm.eq_of_pairwise ?_ hsorted (s.pairwise_inOrder names)
  intro a b _ _ hab hba
  exact absurd (s.isStrictOrder_isBefore.trans a b a hab hba) (s.isStrictOrder_isBefore.irrefl a)

end Schema

end EntityQuery
