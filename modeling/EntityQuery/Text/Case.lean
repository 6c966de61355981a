/-!
# Letter case

Names are compared without regard to the case of the letters of ASCII. Other letters differ from
each other as they are written.
-/

namespace EntityQuery.Text

/-- A text with the capital letters of ASCII made small. -/
def foldCase (s : String) : List Char :=
  s.toList.map Char.toLower

/-- Two texts are the same but for the case of ASCII letters. -/
def sameIgnoringCase (s t : String) : Bool :=
  foldCase s == foldCase t

theorem sameIgnoringCase_iff {s t : String} :
    sameIgnoringCase s t = true ↔ foldCase s = foldCase t := by
  simp [sameIgnoringCase]

end EntityQuery.Text
