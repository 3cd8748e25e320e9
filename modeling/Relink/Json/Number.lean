/-!
# Numbers of JSON text

Which character sequences are numbers, and which of those are too large for double precision.
A magnitude is read as a whole number of at most 64 bits and a power of ten. Digits that do not
fit are dropped, and the product is taken in double precision.
-/

namespace Relink.Json

/-- A whole number times a power of ten. -/
structure Magnitude where
  significand : Nat
  exponent : Int
deriving DecidableEq, Repr

/-- The largest significand. -/
def largestSignificand : Nat := Nat.pow 2 64 - 1

/-- The largest power of ten that double precision holds. -/
def largestTen : Nat := 308

/-- The least whole number that double precision rounds to infinity. -/
def doubleOverflow : Nat := Nat.pow 2 1024 - Nat.pow 2 970

/-- The value of a decimal digit. -/
def digitValue (digit : Char) : Nat :=
  digit.toNat - '0'.toNat

/-- The value of a list of decimal digits. -/
def digitsValue (digits : List Char) : Nat :=
  digits.foldl (fun value digit => value * 10 + digitValue digit) 0

/-- The digits before the point. The first one that does not fit, and all after it, count as
powers of ten only. -/
def Magnitude.ofWhole (significand : Nat) : List Char -> Magnitude
  | [] => ⟨significand, 0⟩
  | digit :: rest =>
    let next := significand * 10 + digitValue digit
    if next ≤ largestSignificand then ofWhole next rest else ⟨significand, rest.length + 1⟩

/-- A magnitude with the digits after the point. The first one that does not fit ends it. -/
def Magnitude.addFraction (magnitude : Magnitude) : List Char -> Magnitude
  | [] => magnitude
  | digit :: rest =>
    let next := magnitude.significand * 10 + digitValue digit
    if next ≤ largestSignificand then addFraction ⟨next, magnitude.exponent - 1⟩ rest
    else magnitude

/-- A whole number in `bits` binary digits: the nearest one, of two the even one. -/
def roundToBits (bits value : Nat) : Nat :=
  if value < Nat.pow 2 bits then value
  else
    let unit := Nat.pow 2 (value.log2 + 1 - bits)
    let low := value / unit
    let remainder := 2 * (value % unit)
    if remainder > unit || (remainder == unit && low % 2 == 1) then (low + 1) * unit else low * unit

/-- Whether a magnitude is too large for double precision. -/
def Magnitude.overflows (magnitude : Magnitude) : Bool :=
  match magnitude.exponent with
  | .negSucc _ => false
  | .ofNat exponent =>
    if exponent ≤ largestTen then
      doubleOverflow ≤ roundToBits 53 magnitude.significand * roundToBits 53 (Nat.pow 10 exponent)
    else magnitude.significand != 0

/-- The digits that a text begins with, at least one, and the text after them. -/
def digits? (text : List Char) : Option (List Char × List Char) :=
  if text.head?.any Char.isDigit then
    some (text.takeWhile Char.isDigit, text.dropWhile Char.isDigit)
  else none

/-- The digits after a point, if a text begins with one, and the text after them. -/
def fraction? : List Char -> Option (List Char × List Char)
  | '.' :: text => digits? text
  | text => some ([], text)

/-- The digits of an exponent. -/
def exponentDigits? (text : List Char) : Option Nat :=
  match digits? text with
  | some (digits, []) => some (digitsValue digits)
  | _ => none

/-- The power of ten that the end of a number gives. -/
def exponent? : List Char -> Option Int
  | [] => some 0
  | letter :: text =>
    if letter = 'e' || letter = 'E' then
      match text with
      | '-' :: digits => (exponentDigits? digits).map fun value => -(value : Int)
      | '+' :: digits => (exponentDigits? digits).map Int.ofNat
      | digits => (exponentDigits? digits).map Int.ofNat
    else none

/-- The magnitude of a number without its sign. A leading zero stands alone. -/
def magnitude? (text : List Char) : Option Magnitude := do
  let (whole, afterWhole) ← digits? text
  if whole.head? = some '0' && whole.length != 1 then none
  else
    let (fraction, afterFraction) ← fraction? afterWhole
    let exponent ← exponent? afterFraction
    let magnitude := (Magnitude.ofWhole 0 whole).addFraction fraction
    some ⟨magnitude.significand, magnitude.exponent + exponent⟩

/-- Whether a text is a number that double precision holds. -/
def isNumber : List Char -> Bool
  | '-' :: text => (magnitude? text).any fun magnitude => !magnitude.overflows
  | text => (magnitude? text).any fun magnitude => !magnitude.overflows

end Relink.Json
