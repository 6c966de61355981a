/-!
# Sorted lists without repetition

A finite set is kept as the list of its elements in ascending order. The order is given as a test
`before`; two elements neither of which is before the other count as one.
-/

namespace EntityQuery

/-- Put an element into its place, unless it is there already. -/
def insertSorted {α : Type} (before : α → α → Bool) (x : α) : List α → List α
  | [] => [x]
  | y :: ys =>
    if before x y then x :: y :: ys
    else if before y x then y :: insertSorted before x ys
    else y :: ys

/-- The elements of a list in ascending order, each once. -/
def sortDistinct {α : Type} (before : α → α → Bool) (xs : List α) : List α :=
  xs.foldr (insertSorted before) []

/-- The texts of a list in ascending order of their code points, each once. -/
def sortTexts (texts : List String) : List String :=
  sortDistinct (fun s t => decide (s < t)) texts

example : sortTexts ["b", "a", "b", "é", "Z"] = ["Z", "a", "b", "é"] := by decide

end EntityQuery
