import EntityQuery.Json.Value
import EntityQuery.Text.Digits
import EntityQuery.Width

/-!
# JSON numbers

A number is a sign, a whole part without superfluous zeros, and perhaps a fraction and an exponent.
One without fraction and exponent that fits 64 bits is an integer. Minus zero is a double, since no
integer has a signed zero.

Every other number is computed in doubles: its first digits, as many as fit 64 bits, times a power
of ten. The digits, the power and the product are each rounded. A number denotes nothing if the
product is infinite, which is so for some numbers just below the greatest double.
-/

namespace EntityQuery.Json

open Text (readDigits digitsToNat)

/-! ## §1 The parts of a number -/

/-- A number as it is written. -/
structure Numeral where
  negative : Bool
  /-- The digits before the point. -/
  whole : List Char
  /-- The digits after the point, if there is one. -/
  fraction : Option (List Char)
  /-- The power of ten, if one is written. -/
  exponent : Option Int

/-- The whole part: a zero, or digits that do not begin with one. -/
def readWhole (cs : List Char) : Option (List Char × List Char) :=
  match readDigits cs with
  | some ('0' :: _ :: _, _) => none
  | read => read

/-- The fraction, if a point follows. -/
def readFraction : List Char → Option (Option (List Char) × List Char)
  | '.' :: cs => (readDigits cs).map fun (digits, rest) => (some digits, rest)
  | cs => some (none, cs)

/-- The exponent's sign and digits. -/
def readPower : List Char → Option (Int × List Char)
  | '-' :: cs => (readDigits cs).map fun (digits, rest) => (-(digitsToNat digits : Int), rest)
  | '+' :: cs => (readDigits cs).map fun (digits, rest) => ((digitsToNat digits : Int), rest)
  | cs => (readDigits cs).map fun (digits, rest) => ((digitsToNat digits : Int), rest)

/-- The exponent, if one follows. -/
def readExponent : List Char → Option (Option Int × List Char)
  | 'e' :: cs => (readPower cs).map fun (power, rest) => (some power, rest)
  | 'E' :: cs => (readPower cs).map fun (power, rest) => (some power, rest)
  | cs => some (none, cs)

/-- The sign: a minus, or none. -/
def readSign : List Char → Bool × List Char
  | '-' :: cs => (true, cs)
  | cs => (false, cs)

def readNumeral (cs : List Char) : Option (Numeral × List Char) := do
  let (negative, cs) := readSign cs
  let (whole, cs) ← readWhole cs
  let (fraction, cs) ← readFraction cs
  let (exponent, cs) ← readExponent cs
  return (⟨negative, whole, fraction, exponent⟩, cs)

/-! ## §2 What a number denotes -/

namespace Numeral

/-- Digits are written behind a number as long as it fits 64 bits: the number that results, and how
many digits are left. -/
def extend (m : Nat) : List Char → Nat × Nat
  | [] => (m, 0)
  | d :: ds =>
    let next := m * 10 + digitsToNat [d]
    if fitsUnsigned 64 next then extend next ds else (m, ds.length + 1)

/-- The number as some 64 bits and the power of ten by which they are to be multiplied. The first
digit that does not fit ends the whole part, and another one the fraction. -/
def scaled (n : Numeral) : Nat × Int :=
  let fraction := n.fraction.getD []
  let (m, skipped) := extend 0 n.whole
  let (m, ignored) := extend m fraction
  (m, n.exponent.getD 0 + skipped - (fraction.length - ignored : Nat))

/-- The exponent of the greatest power of ten within the range of doubles. -/
def maxPower : Nat := 308

/-- The number is infinite when it is computed in doubles. -/
def overflows (n : Numeral) : Bool :=
  match n.scaled with
  | (_, .negSucc _) => false
  | (m, .ofNat e) =>
    m ≠ 0 && (maxPower < e ||
      Text.doubleBound ≤ Text.nearestDouble m * Text.nearestDouble (Nat.pow 10 e))

/-- The integer that the digits and the sign spell. -/
def toInt (n : Numeral) : Int :=
  let magnitude : Int := digitsToNat n.whole
  if n.negative then -magnitude else magnitude

/-- The number is an integer of 64 bits: unsigned, or signed and below zero. -/
def isInteger (n : Numeral) : Bool :=
  n.fraction.isNone && n.exponent.isNone &&
    if n.negative then fitsSigned 64 n.toInt && n.toInt < 0 else fitsUnsigned 64 n.toInt

/-- What the number denotes, given how it is spelled. -/
def value (n : Numeral) (literal : List Char) : Json :=
  if n.isInteger then .int n.toInt
  else if n.overflows then .void
  else .real (String.ofList literal)

end Numeral

def readNumber (cs : List Char) : Option (Json × List Char) :=
  (readNumeral cs).map fun (n, rest) => (n.value (cs.take (cs.length - rest.length)), rest)

end EntityQuery.Json
