/-!
# Digits

Reading decimal digits off the front of a text, the numbers that decimal and hexadecimal digits
write, and the numbers that no double can hold.
-/

namespace EntityQuery.Text

/-! ## §1 Decimal digits -/

/-- The digits a text starts with and what follows them. -/
def splitDigits (cs : List Char) : List Char × List Char :=
  (cs.takeWhile Char.isDigit, cs.dropWhile Char.isDigit)

/-- The digits a text starts with, of which there must be one. -/
def readDigits (cs : List Char) : Option (List Char × List Char) :=
  match splitDigits cs with
  | ([], _) => none
  | split => some split

/-- The number that decimal digits write. -/
def digitsToNat (digits : List Char) : Nat :=
  Nat.ofDigitChars 10 digits 0

/-- The digits of a number write that number. -/
theorem digitsToNat_toDigits (n : Nat) : digitsToNat (Nat.toDigits 10 n) = n :=
  Nat.ofDigitChars_toDigits (by decide) (by decide)

/-! ## §2 Hexadecimal digits -/

/-- The value of a hexadecimal digit, in either case. -/
def hexDigit? (c : Char) : Option Nat :=
  if c.isDigit then some (c.toNat - 48)
  else if 'a' ≤ c && c ≤ 'f' then some (c.toNat - 87)
  else if 'A' ≤ c && c ≤ 'F' then some (c.toNat - 55)
  else none

/-- The number that hexadecimal digits write. -/
def hexToNat? (digits : List Char) : Option Nat :=
  digits.foldlM (fun n d => (hexDigit? d).map (n * 16 + ·)) 0

/-! ## §3 Doubles -/

/-- The least number whose nearest double is infinite: half a unit above the greatest double. -/
def doubleBound : Nat :=
  Nat.pow 2 1024 - Nat.pow 2 970

/-- The double next to a natural number below the bound; the even one of two. -/
def nearestDouble (n : Nat) : Nat :=
  let unit := Nat.pow 2 (n.log2 - 52)
  let low := n / unit
  let twice := 2 * (n % unit)
  if unit < twice || (twice = unit && low % 2 = 1) then (low + 1) * unit else low * unit

/-- The number `m · 10 ^ e` lies beyond every double. The bound has 309 digits, so that only
products of that many digits need to be compared with it. -/
def isBeyondDouble (m : Nat) (e : Int) : Bool :=
  let size : Int := (toString m).length + e
  if m = 0 then false
  else if size < 309 then false
  else if 309 < size then true
  else doubleBound * Nat.pow 10 (-e).toNat ≤ m * Nat.pow 10 e.toNat

end EntityQuery.Text
