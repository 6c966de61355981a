import EntityQuery.Expression.Operator
import EntityQuery.Text.Blank
import EntityQuery.Text.Case

/-!
# Ranges

A range restricts a column from below, from above or from both sides. Two spellings are read.

* In brackets: `[1 TO 10}`. A square bracket includes its bound and a curly one excludes it; an
  asterisk leaves the side open.
* With operators: `>=1 and <10`, in either order, or one of the two alone.

Blanks around the parts have no meaning. A bound never holds a line feed.
-/

namespace EntityQuery

/-! ## §1 Ranges -/

/-- One side of a range. -/
structure Bound where
  /-- The bound itself is excluded. -/
  strict : Bool
  value : String
  deriving DecidableEq, Repr

/-- A range has a lower bound, an upper bound, or both. -/
inductive Range
  | above (lower : Bound)
  | below (upper : Bound)
  | between (lower upper : Bound)
  deriving DecidableEq, Repr

namespace Range

def lowerOperator (b : Bound) : ComparisonOperator :=
  if b.strict then .gt else .ge

def upperOperator (b : Bound) : ComparisonOperator :=
  if b.strict then .lt else .le

def lower? : Range → Option (ComparisonOperator × String)
  | .above lower | .between lower _ => some (lowerOperator lower, lower.value)
  | .below _ => none

def upper? : Range → Option (ComparisonOperator × String)
  | .below upper | .between _ upper => some (upperOperator upper, upper.value)
  | .above _ => none

/-- The comparisons that a range stands for, the lower bound first. -/
def bounds (r : Range) : List (ComparisonOperator × String) :=
  r.lower?.toList ++ r.upper?.toList

/-- The range with the given sides, if there is one at least. -/
def ofSides? : Option Bound → Option Bound → Option Range
  | none, none => none
  | some lower, none => some (.above lower)
  | none, some upper => some (.below upper)
  | some lower, some upper => some (.between lower upper)

/-! ## §2 Brackets -/

/-- What follows `TO` with blanks on both sides, if the text starts with that. -/
def afterTo? (cs : List Char) : Option (List Char) :=
  match cs, Text.dropBlanks cs with
  | c :: _, 'T' :: 'O' :: d :: rest =>
    if Text.isBlank c && Text.isBlank d then some (Text.dropBlanks rest) else none
  | _, _ => none

/-- The two sides of a text around the first `TO` that leaves no line feed in either. -/
def splitTo? : List Char → Option (List Char × List Char)
  | [] => none
  | c :: cs =>
    match (afterTo? (c :: cs)).filter (!·.contains '\n') with
    | some high => some ([], high)
    -- the lower side has no line feed either
    | none => if c = '\n' then none else (splitTo? cs).map fun (low, high) => (c :: low, high)

/-- A text between brackets: whether the opening one excludes, what stands between them, and
whether the closing one excludes. -/
def unbracket? (cs : List Char) : Option (Bool × List Char × Bool) := do
  let opening ← cs.head?
  let closing ← cs.getLast?
  guard ((opening = '[' || opening = '\x7b') && (closing = ']' || closing = '\x7d'))
  return (opening = '\x7b', cs.tail.dropLast, closing = '\x7d')

/-- One side of a range in brackets; an asterisk leaves it open. -/
def bracketSide? (strict : Bool) (value : List Char) : Option Bound :=
  if value = ['*'] then none else some ⟨strict, String.ofList value⟩

/-- Read a range in brackets from a trimmed text. -/
def ofBrackets? (cs : List Char) : Option Range := do
  let (openStrict, inner, closeStrict) ← unbracket? cs
  let (low, high) ← splitTo? (Text.trim inner)
  ofSides? (bracketSide? openStrict low) (bracketSide? closeStrict high)

/-! ## §3 Operators -/

/-- What follows `and` with blanks on both sides, in whatever case, if the text starts with that. -/
def afterAnd? (cs : List Char) : Option (List Char) :=
  match cs, Text.dropBlanks cs with
  | c :: _, a :: n :: d :: b :: rest =>
    if Text.isBlank c && [a, n, d].map Char.toLower = ['a', 'n', 'd'] && Text.isBlank b then
      some (Text.dropBlanks rest)
    else none
  | _, _ => none

/-- The two parts of a text around its first `and`. -/
def splitAnd? : List Char → Option (List Char × List Char)
  | [] => none
  | c :: cs =>
    match afterAnd? (c :: cs) with
    | some rest => some ([], rest)
    | none => (splitAnd? cs).map fun (first, rest) => (c :: first, rest)

/-- The value of a bound: what is left between blanks, without line feed. -/
def boundValue? (cs : List Char) : Option (List Char) :=
  let value := Text.trim cs
  if value.isEmpty || value.contains '\n' then none else some value

/-- The direction of a bound and the bound itself. -/
inductive Side
  | lower (b : Bound)
  | upper (b : Bound)

/-- A bound after `>` or `<`. An equals sign includes the bound, but where no value follows the
equals sign, it is the value itself. -/
def boundAfter? (cs : List Char) : Option Bound :=
  match cs with
  | '=' :: rest =>
    match boundValue? rest with
    | some value => some ⟨false, String.ofList value⟩
    | none => (boundValue? cs).map fun value => ⟨true, String.ofList value⟩
  | _ => (boundValue? cs).map fun value => ⟨true, String.ofList value⟩

def operatorSide? (cs : List Char) : Option Side :=
  match Text.dropBlanks cs with
  | '>' :: rest => (boundAfter? rest).map .lower
  | '<' :: rest => (boundAfter? rest).map .upper
  | _ => none

/-- The range of one bound. -/
def ofSide : Side → Range
  | .lower b => .above b
  | .upper b => .below b

/-- The range of two bounds, of which one is a lower and one an upper bound. -/
def ofTwoSides? : Side → Side → Option Range
  | .lower lower, .upper upper => some (.between lower upper)
  | .upper upper, .lower lower => some (.between lower upper)
  | _, _ => none

/-- Read a range with operators from a trimmed text: one bound, or two with one `and` between. -/
def ofOperators? (cs : List Char) : Option Range :=
  match splitAnd? cs with
  | none => (operatorSide? cs).map ofSide
  | some (first, second) =>
    if (splitAnd? second).isSome then none
    else (operatorSide? first).bind fun a => (operatorSide? second).bind fun b => ofTwoSides? a b

/-! ## §4 Both spellings -/

def parse? (spec : String) : Option Range :=
  let cs := Text.trim spec.toList
  match ofBrackets? cs with
  | some range => some range
  | none => ofOperators? cs

end Range

end EntityQuery
