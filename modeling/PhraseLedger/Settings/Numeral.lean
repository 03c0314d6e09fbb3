import PhraseLedger.Error
import PhraseLedger.Text.Words

/-!
# Numerals

A numeral of a settings text has a sign, an integer part, a fraction and an exponent,
of which all but the integer part may be missing.  Only a numeral with an integer part
alone that fits in 64 bits is a natural number; every other one is read to its end
and, if its size exceeds that of a double, counts as malformed.

Main definitions:

- Definition {lit}`Numeral.read`: the numeral at the front of a text.
- Definition {lit}`Numeral.overflows`: whether a decimal exceeds every double.
-/

namespace PhraseLedger

/-- What a numeral stands for. -/
inductive Numeral where
  /-- A natural number below `2 ^ 64`. -/
  | natural (value : Nat)
  /-- A negative number, a fraction, or a number that is too large. -/
  | other
deriving DecidableEq, Repr

namespace Numeral

/-- Whether a byte is a decimal digit. -/
def isDigit (byte : UInt8) : Bool :=
  48 ≤ byte && byte ≤ 57

/-- The value of a decimal digit. -/
def digitValue (byte : UInt8) : Nat :=
  byte.toNat - 48

/-- The number that digits stand for. -/
def value (digits : Text) : Nat :=
  digits.foldl (fun number byte => number * 10 + digitValue byte) 0

/-! ## Size -/

/-- A number of the form `significand * 10 ^ exponent`. -/
structure Decimal where
  significand : Nat
  exponent : Int
deriving DecidableEq, Repr

namespace Decimal

/-- The largest significand. -/
def significandMax : Nat := UInt64.size - 1

/-- Appends digits of an integer part.  From the first digit on for which there is no
room, digits only raise the exponent. -/
def takeInteger : Text → Decimal → Decimal
  | [], decimal => decimal
  | byte :: rest, decimal =>
    let next := decimal.significand * 10 + digitValue byte
    if next ≤ significandMax then takeInteger rest ⟨next, decimal.exponent⟩
    else ⟨decimal.significand, decimal.exponent + (rest.length + 1)⟩

/-- Appends digits of a fraction.  From the first digit on for which there is no room,
digits are left out. -/
def takeFraction : Text → Decimal → Decimal
  | [], decimal => decimal
  | byte :: rest, decimal =>
    let next := decimal.significand * 10 + digitValue byte
    if next ≤ significandMax then takeFraction rest ⟨next, decimal.exponent - 1⟩
    else decimal

end Decimal

/-- A natural number rounded to 53 significant bits, a half going to the even
neighbour. -/
def toDouble (number : Nat) : Nat :=
  let shift := Nat.log2 number - 52
  let unit := 1 <<< shift
  let below := number / unit
  let rest := number % unit
  let up := unit < 2 * rest || (unit == 2 * rest && below % 2 == 1)
  (if up then below + 1 else below) * unit

/-- The largest power of ten that is a double. -/
def maxPower : Nat := 308

/-- The least number that rounds to infinity instead of a double. -/
def infinityBound : Nat := (1 <<< 1024) - (1 <<< 970)

/-- Whether a decimal exceeds every double: its significand and its power of ten are
rounded to doubles, and so is their product. -/
def overflows (decimal : Decimal) : Bool :=
  match decimal.exponent with
  | .negSucc _ => false
  | .ofNat power =>
    if power ≤ maxPower then
      infinityBound ≤ toDouble decimal.significand * toDouble (Nat.pow 10 power)
    else decimal.significand != 0

/-! ## Reading -/

/-- The digits at the front of a text, and the text behind them.  There must be at
least one. -/
def digits (text : Text) : Except SettingsFault (Text × Text) :=
  match text with
  | [] => .error .truncated
  | byte :: _ =>
    if isDigit byte then .ok (text.takeWhile isDigit, text.dropWhile isDigit)
    else .error .malformed

/-- The integer part at the front of a text: digits of which the first is not a zero,
unless it is the only one. -/
def integerPart (text : Text) : Except SettingsFault (Text × Text) :=
  match digits text with
  | .error fault => .error fault
  | .ok (found, rest) =>
    if found.head? = some 48 ∧ 1 < found.length then .error .malformed
    else .ok (found, rest)

/-- The fraction at the front of a text, a point and digits, if there is one. -/
def fraction? (text : Text) : Except SettingsFault (Option Text × Text) :=
  match text with
  | 46 :: rest => (digits rest).map fun found => (some found.1, found.2)
  | _ => .ok (none, text)

/-- The exponent behind its letter: a sign that may be missing, and digits. -/
def exponentValue (text : Text) : Except SettingsFault (Int × Text) :=
  match text with
  | 43 :: rest => (digits rest).map fun found => ((value found.1 : Int), found.2)
  | 45 :: rest => (digits rest).map fun found => (-(value found.1 : Int), found.2)
  | _ => (digits text).map fun found => ((value found.1 : Int), found.2)

/-- The exponent at the front of a text, if there is one. -/
def exponent? (text : Text) : Except SettingsFault (Option Int × Text) :=
  match text with
  | 69 :: rest => (exponentValue rest).map fun found => (some found.1, found.2)
  | 101 :: rest => (exponentValue rest).map fun found => (some found.1, found.2)
  | _ => .ok (none, text)

/-- What the parts of a numeral stand for. -/
def ofParts (negative : Bool) (integer : Text) (fraction : Option Text)
    (exponent : Option Int) : Except SettingsFault Numeral :=
  let plain := fraction.isNone && exponent.isNone
  if plain && value integer ≤ Decimal.significandMax then
    .ok (if negative then .other else .natural (value integer))
  else
    let decimal := Decimal.takeFraction (fraction.getD [])
      (Decimal.takeInteger integer ⟨0, 0⟩)
    if overflows ⟨decimal.significand, decimal.exponent + exponent.getD 0⟩ then
      .error .malformed
    else .ok .other

/-- The numeral at the front of a text without its sign, and the text behind it. -/
def readUnsigned (negative : Bool) (text : Text) : Except SettingsFault (Numeral × Text) :=
  match integerPart text with
  | .error fault => .error fault
  | .ok (integer, rest) =>
    match fraction? rest with
    | .error fault => .error fault
    | .ok (fraction, rest) =>
      match exponent? rest with
      | .error fault => .error fault
      | .ok (exponent, rest) =>
        (ofParts negative integer fraction exponent).map fun numeral => (numeral, rest)

/-- The numeral at the front of a text, and the text behind it. -/
def read (text : Text) : Except SettingsFault (Numeral × Text) :=
  match text with
  | 45 :: rest => readUnsigned true rest
  | _ => readUnsigned false text

end Numeral

end PhraseLedger
