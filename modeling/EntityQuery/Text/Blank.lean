/-!
# Blanks

Which characters separate words, and the three operations on text that depend on it: dropping
blanks at the start, trimming both ends, and splitting into words.

The class is the Unicode property `White_Space`. It holds the next-line and no-break spaces and
the line and paragraph separators; zero-width characters and the information separators
U+001C to U+001F are not in it.
-/

namespace EntityQuery.Text

/-! ## §1 The class -/

/-- The ranges of code points with the property `White_Space`. -/
def blankRanges : List (Nat × Nat) :=
  [(0x09, 0x0D), (0x20, 0x20), (0x85, 0x85), (0xA0, 0xA0), (0x1680, 0x1680), (0x2000, 0x200A),
   (0x2028, 0x2029), (0x202F, 0x202F), (0x205F, 0x205F), (0x3000, 0x3000)]

/-- A blank is a character with the Unicode property `White_Space`. -/
def isBlank (c : Char) : Bool :=
  blankRanges.any fun (low, high) => low ≤ c.toNat && c.toNat ≤ high

/-- The white space of ASCII is blank. -/
theorem isBlank_of_isWhitespace {c : Char} (h : c.isWhitespace = true) : isBlank c = true := by
  simp only [Char.isWhitespace, Bool.or_eq_true, decide_eq_true_eq] at h
  rcases h with ((rfl | rfl) | rfl) | rfl <;> decide

/-- There are 25 blanks. -/
example : (blankRanges.map fun (low, high) => high + 1 - low).sum = 25 := by decide

/-! ## §2 Trimming and words -/

def dropBlanks (cs : List Char) : List Char :=
  cs.dropWhile isBlank

def dropTrailingBlanks : List Char → List Char
  | [] => []
  | c :: cs =>
    match dropTrailingBlanks cs with
    | [] => if isBlank c then [] else [c]
    | kept => c :: kept

/-- The text without the blanks at its two ends. -/
def trim (cs : List Char) : List Char :=
  dropTrailingBlanks (dropBlanks cs)

/-- The words of a text and the word it starts with: `word` is what runs up to the first blank
    and `others` are the words after it. -/
def splitWords : List Char → List Char × List (List Char)
  | [] => ([], [])
  | c :: cs =>
    let (word, others) := splitWords cs
    if isBlank c then ([], if word.isEmpty then others else word :: others)
    else (c :: word, others)

/-- The words of a text: its longest runs without blanks, in order. -/
def words (cs : List Char) : List (List Char) :=
  let (word, others) := splitWords cs
  if word.isEmpty then others else word :: others

end EntityQuery.Text
