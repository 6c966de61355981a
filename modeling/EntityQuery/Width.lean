/-!
# Whole numbers of a width

Limits, pages and the numbers of networks and projects have as many bits as the programs that
store them. A number that needs more bits is refused, never wrapped around.
-/

namespace EntityQuery

/-- How many numbers some bits can tell apart. -/
def numbersOf (bits : Nat) : Nat :=
  Nat.pow 2 bits

/-- The number fits some bits without a sign. -/
def fitsUnsigned (bits : Nat) (n : Int) : Bool :=
  0 ≤ n && n < numbersOf bits

/-- The number fits some bits, one of which is the sign. -/
def fitsSigned (bits : Nat) (n : Int) : Bool :=
  -(numbersOf (bits - 1) : Int) ≤ n && n < numbersOf (bits - 1)

theorem fitsUnsigned_iff {bits : Nat} {n : Int} :
    fitsUnsigned bits n = true ↔ 0 ≤ n ∧ n < numbersOf bits := by
  simp [fitsUnsigned]

theorem fitsSigned_iff {bits : Nat} {n : Int} :
    fitsSigned bits n = true ↔ -(numbersOf (bits - 1) : Int) ≤ n ∧ n < numbersOf (bits - 1) := by
  simp [fitsSigned]

end EntityQuery
