/-!
# Byte counts

A count of bytes is shown in the largest binary unit that it reaches, with two decimals above the
single byte. The count is first rounded to 53 significant bits, then divided by the unit, which
is a power of two and so loses nothing, and the quotient is rounded to two places; both roundings
send a tie to the even neighbour.
-/

namespace TieredStore.ByteCount

/-- The integer nearest to `num / den`; of two equally near ones, the even one. -/
def roundDiv (num den : Nat) : Nat :=
  let quotient := num / den
  let twice := 2 * (num % den)
  if twice < den then quotient
  else if den < twice then quotient + 1
  else if quotient % 2 = 0 then quotient
  else quotient + 1

/-- The nearest number with at most `bits` significant bits, a tie going to the even one. -/
def roundToBits (bits value : Nat) : Nat :=
  let spacing := Nat.pow 2 (value.log2 + 1 - bits)
  roundDiv value spacing * spacing

/-- The units in which a count is shown. -/
inductive Scale
  | byte
  | kilobyte
  | megabyte
  | gigabyte
  deriving DecidableEq, Repr

namespace Scale

/-- How many bytes make up one unit. -/
def factor : Scale → Nat
  | byte => 1
  | kilobyte => 1024
  | megabyte => 1024 * 1024
  | gigabyte => 1024 * 1024 * 1024

/-- The unit's name behind a count. -/
def label : Scale → String
  | byte => "B"
  | kilobyte => "KB"
  | megabyte => "MB"
  | gigabyte => "GB"

/-- The largest unit that a count reaches. -/
def ofCount (bytes : Nat) : Scale :=
  if bytes < kilobyte.factor then byte
  else if bytes < megabyte.factor then kilobyte
  else if bytes < gigabyte.factor then megabyte
  else gigabyte

end Scale

/-- The count in hundredths of a unit. -/
def hundredths (scale : Scale) (bytes : Nat) : Nat :=
  roundDiv (100 * roundToBits 53 bytes) scale.factor

/-- A number of hundredths as a decimal with two places. -/
def twoPlaces (hundredths : Nat) : String :=
  let fraction := hundredths % 100
  toString (hundredths / 100) ++ "." ++ toString (fraction / 10) ++ toString (fraction % 10)

/-- A count of bytes in its unit; single bytes have no decimals. -/
def render (bytes : Nat) : String :=
  match Scale.ofCount bytes with
  | .byte => toString bytes ++ " " ++ Scale.byte.label
  | scale => twoPlaces (hundredths scale bytes) ++ " " ++ scale.label

end TieredStore.ByteCount
