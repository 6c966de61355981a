import Mathlib.Data.List.Permutation
import EntityQuery.Range
import EntityQuery.Proofs.Text.Trimming

/-!
# Sides of a range

A range is bounded on one side or on two different ones, and its comparisons are those of its sides,
the lower one first. However a range is read, its sides and their values are found first.
-/

namespace EntityQuery.Range

open Text

/-! ## §1 Sides -/

/-- The bound on a side, as a comparison. -/
def Side.comparison : Side → ComparisonOperator × String
  | .lower b => (lowerOperator b, b.value)
  | .upper b => (upperOperator b, b.value)

def Side.bound : Side → Bound
  | .lower b => b
  | .upper b => b

/-- The sides on which a range is bounded, the lower first. -/
def sides : Range → List Side
  | .above lower => [.lower lower]
  | .below upper => [.upper upper]
  | .between lower upper => [.lower lower, .upper upper]

variable {r : Range}

theorem Side.value_comparison (side : Side) : side.comparison.2 = side.bound.value := by
  cases side <;> rfl

theorem Side.comparison_injective : Function.Injective Side.comparison := by
  rintro (⟨_ | _, value⟩ | ⟨_ | _, value⟩) (⟨_ | _, value'⟩ | ⟨_ | _, value'⟩) h <;>
    simp_all [Side.comparison, lowerOperator, upperOperator]

theorem bounds_eq_map_sides (r : Range) : r.bounds = r.sides.map Side.comparison := by
  cases r <;> rfl

theorem perm_bounds_iff {sides : List Side} {r : Range} :
    (sides.map Side.comparison).Perm r.bounds ↔ sides.Perm r.sides := by
  rw [bounds_eq_map_sides, List.map_perm_map_iff Side.comparison_injective]

theorem ofSide_eq_iff {side : Side} {r : Range} : ofSide side = r ↔ [side].Perm r.sides := by
  cases side <;> cases r <;> simp [ofSide, sides]

theorem ofTwoSides?_eq_some_iff {first second : Side} {r : Range} :
    ofTwoSides? first second = some r ↔ [first, second].Perm r.sides := by
  cases first <;> cases second <;> cases r <;>
    simp [ofTwoSides?, sides, List.pair_perm, and_comm, eq_comm]

theorem length_sides_le (r : Range) : r.sides.length ≤ 2 := by
  cases r <;> simp [sides]

theorem sides_ofSides? {lower upper : Option Bound} (h : ofSides? lower upper = some r) :
    r.sides = lower.toList.map Side.lower ++ upper.toList.map Side.upper := by
  cases lower <;> cases upper <;> simp [ofSides?] at h <;> subst h <;> rfl

/-! ## §2 Values -/

/-- What a bound can be: something between blanks, without line feed. -/
structure IsValue (value : String) : Prop where
  nonempty : value.toList ≠ []
  trimmed : Trimmed value.toList
  line : '\n' ∉ value.toList

instance {value : String} : Decidable (IsValue value) :=
  decidable_of_iff (value.toList ≠ [] ∧ Trimmed value.toList ∧ '\n' ∉ value.toList)
    ⟨fun ⟨h, h', h''⟩ => ⟨h, h', h''⟩, fun ⟨h, h', h''⟩ => ⟨h, h', h''⟩⟩

end EntityQuery.Range
