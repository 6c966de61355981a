import EntityQuery.Toml.Value
import EntityQuery.Text.Digits
import EntityQuery.Width

/-!
# TOML scalars

Numbers, truth values and points in time are written without quotes. The digits of a number may be
grouped by single underscores. A decimal number has no superfluous zeros in front; hexadecimal,
octal and binary numbers have no sign.

What kind of number it is shows before its digits are looked at. A grouped decimal integer with
characters that are not digits, an integer of another base without digits, an integer beyond 128
bits and a float beyond the range of doubles are numbers that denote nothing.

* `Toml.isGrouped` says where underscores may stand.
-/

namespace EntityQuery.Toml

open Text (digitsToNat)

/-! ## §1 Digits -/

/-- Every underscore stands between two digits. -/
def isGrouped (isDigit : Char → Bool) : List Char → Bool
  | [] => true
  | c :: '_' :: cs => isDigit c && cs.head?.any isDigit && isGrouped isDigit cs
  | c :: cs => c ≠ '_' && isGrouped isDigit cs

/-- What is written but for the underscores. -/
def ungroup (cs : List Char) : List Char :=
  cs.filter (· ≠ '_')

/-- The digits of a number, of which there must be one. -/
def digits? (cs : List Char) : Option (List Char) :=
  let digits := ungroup cs
  if !digits.isEmpty && digits.all Char.isDigit then some digits else none

/-- The sign of a number: whether it is a minus, and what follows it. -/
def splitSign : List Char → Bool × List Char
  | '-' :: cs => (true, cs)
  | '+' :: cs => (false, cs)
  | cs => (false, cs)

/-- The number with a sign and digits. -/
def signed (negative : Bool) (digits : List Char) : Int :=
  if negative then -(digitsToNat digits : Int) else digitsToNat digits

/-! ## §2 Integers -/

/-- The character is a hexadecimal digit. -/
def isHexDigit (c : Char) : Bool :=
  (Text.hexDigit? c).isSome

/-- The character separates the exponent of a float. -/
def isExponentMark (c : Char) : Bool :=
  c = 'e' || c = 'E'

/-- The value of an integer, which has at most 128 bits, with or without sign. -/
def ofInt (n : Int) : Toml :=
  if fitsSigned 128 n || fitsUnsigned 128 n then .integer n else .void

/-- The number that digits write in a base. -/
def baseValue (base : Nat) (digits : List Char) : Nat :=
  digits.foldl (fun n d => n * base + (Text.hexDigit? d).getD 0) 0

/-- Read an integer in a base after the mark of the base. -/
def based? (base : Nat) (isDigit : Char → Bool) (cs : List Char) : Option Toml :=
  let digits := ungroup cs
  if isGrouped isDigit cs && digits.all isDigit then
    some (if digits.isEmpty then .void else ofInt (baseValue base digits))
  else none

/-- The text, which follows the sign, is that of a decimal integer: digits alone, or with them what
an underscore begins and neither a point nor an exponent is in. -/
def isDecimal (cs : List Char) : Bool :=
  match cs.dropWhile Char.isDigit with
  | [] => !cs.isEmpty
  | '_' :: rest => rest.all fun c => c ≠ '.' && !isExponentMark c
  | _ => false

/-- Read a decimal integer. -/
def decimal? (cs : List Char) : Option Toml :=
  let (negative, cs) := splitSign cs
  if isDecimal cs && (cs.head? ≠ some '0' || cs = ['0']) && isGrouped isHexDigit cs then
    some (((digits? cs).map fun ds => ofInt (signed negative ds)).getD .void)
  else none

def integer? : List Char → Option Toml
  | '0' :: 'x' :: cs => based? 16 isHexDigit cs
  | '0' :: 'o' :: cs => based? 8 (fun c => '0' ≤ c && c ≤ '7') cs
  | '0' :: 'b' :: cs => based? 2 (fun c => c = '0' || c = '1') cs
  | cs => decimal? cs

/-! ## §3 Floats -/

/-- The digits before the point: a zero, or digits that do not begin with one. -/
def wholeDigits? (cs : List Char) : Option (List Char) :=
  match digits? cs with
  | some ('0' :: _ :: _) => none
  | digits => digits

/-- The digits after the point, if there is one. -/
def fraction? : List Char → Option (List Char)
  | [] => some []
  | _ :: cs => digits? cs

/-- The exponent of a float: its mark, a sign and digits, or nothing. -/
def exponent? : List Char → Option Int
  | [] => some 0
  | _ :: cs =>
    let (negative, cs) := splitSign cs
    (digits? cs).map (signed negative)

/-- Read a float: it has a point or an exponent, or is infinite or no number. -/
def float? (cs : List Char) : Option Toml :=
  let (_, cs) := splitSign cs
  if cs = "inf".toList || cs = "nan".toList then some .float
  else
    let mantissa := cs.takeWhile (!isExponentMark ·)
    let power := cs.dropWhile (!isExponentMark ·)
    let point := mantissa.dropWhile (· ≠ '.')
    if point.isEmpty && power.isEmpty || !isGrouped Char.isDigit cs then none
    else do
      let whole ← wholeDigits? (mantissa.takeWhile (· ≠ '.'))
      let fraction ← fraction? point
      let exponent ← exponent? power
      let power := exponent - fraction.length
      return if Text.isBeyondDouble (digitsToNat (whole ++ fraction)) power then .void else .float

/-! ## §4 Points in time -/

/-- The number that two digits write. -/
def twoDigits? : List Char → Option Nat
  | [a, b] => if a.isDigit && b.isDigit then some (digitsToNat [a, b]) else none
  | _ => none

/-- How many days a month has. -/
def daysInMonth (year month : Nat) : Nat :=
  if month = 2 then
    if year % 4 = 0 && (year % 100 ≠ 0 || year % 400 = 0) then 29 else 28
  else if month = 4 || month = 6 || month = 9 || month = 11 then 30
  else 31

/-- The text is a date, such as `2024-02-29`. -/
def isDate : List Char → Bool
  | [a, b, c, d, '-', e, f, '-', g, h] =>
    match twoDigits? [a, b], twoDigits? [c, d], twoDigits? [e, f], twoDigits? [g, h] with
    | some century, some year, some month, some day =>
      1 ≤ month && month ≤ 12 && 1 ≤ day && day ≤ daysInMonth (century * 100 + year) month
    | _, _, _, _ => false
  | _ => false

def isSecondFraction : List Char → Bool
  | [] => true
  | '.' :: d :: ds => (d :: ds).all Char.isDigit
  | _ => false

/-- The text is hours and minutes, such as `23:59`. -/
def isClock : List Char → Bool
  | [a, b, ':', c, d] =>
    match twoDigits? [a, b], twoDigits? [c, d] with
    | some hour, some minute => hour ≤ 23 && minute ≤ 59
    | _, _ => false
  | _ => false

/-- The text is nothing or the seconds of a time, such as `:60.5`. -/
def isSeconds : List Char → Bool
  | [] => true
  | ':' :: a :: b :: fraction => (twoDigits? [a, b]).any (· ≤ 60) && isSecondFraction fraction
  | _ => false

/-- The text is a time of day, such as `23:59` or `23:59:60.5`. -/
def isTime (cs : List Char) : Bool :=
  isClock (cs.take 5) && isSeconds (cs.drop 5)

/-- The text is a time of day, perhaps with its distance from universal time. -/
def isZonedTime (cs : List Char) : Bool :=
  let isZoneMark (c : Char) : Bool := c = 'Z' || c = 'z' || c = '+' || c = '-'
  isTime (cs.takeWhile (!isZoneMark ·)) &&
    match cs.dropWhile (!isZoneMark ·) with
    | [] => true
    | ['Z'] => true
    | ['z'] => true
    | '+' :: offset => isClock offset
    | '-' :: offset => isClock offset
    | _ => false

/-- The text is a date and a time of day with a mark between them. -/
def isDateTime (cs : List Char) : Bool :=
  isDate (cs.take 10) &&
    match cs.drop 10 with
    | mark :: time => (mark = 'T' || mark = 't' || mark = ' ') && isZonedTime time
    | [] => false

/-! ## §5 Scalars -/

def scalar? (cs : List Char) : Option Toml :=
  if cs = "true".toList then some (.boolean true)
  else if cs = "false".toList then some (.boolean false)
  else if isDate cs || isTime cs || isDateTime cs then some .moment
  else (integer? cs).or (float? cs)

end EntityQuery.Toml
