/-!
# Numerals with a greatest value

A numeral is a run of decimal digits behind an optional plus sign. It is read from the left, and
the first thing wrong is what is reported: a character that is no digit, or a value past the
greatest one.
-/

namespace TieredStore

/-- Why a text is no numeral. -/
inductive NumeralFault
  | empty
  /-- A character is no digit, or a sign stands alone. -/
  | invalidDigit
  /-- The value is past the greatest one. -/
  | tooLarge
  deriving DecidableEq, Repr

namespace NumeralFault

/-- The wording of a fault. -/
def message : NumeralFault → String
  | empty => "cannot parse integer from empty string"
  | invalidDigit => "invalid digit found in string"
  | tooLarge => "number too large to fit in target type"

end NumeralFault

namespace Numeral

/-- The value of some digits behind those that make up `value`. -/
def readDigits (greatest : Nat) (value : Nat) : List Char → Except NumeralFault Nat
  | [] => .ok value
  | c :: rest =>
    if c.isDigit then
      let longer := 10 * value + (c.toNat - '0'.toNat)
      if longer ≤ greatest then readDigits greatest longer rest else .error .tooLarge
    else .error .invalidDigit

/-- The value of a numeral of at most `greatest`. -/
def read (greatest : Nat) (text : String) : Except NumeralFault Nat :=
  match text.toList with
  | [] => .error .empty
  | ['+'] => .error .invalidDigit
  | '+' :: digits => readDigits greatest 0 digits
  | digits => readDigits greatest 0 digits

/-- The greatest 32-bit number. -/
def greatest32 : Nat := UInt32.size - 1

/-- The greatest 64-bit number. -/
def greatest64 : Nat := UInt64.size - 1

end Numeral

end TieredStore
