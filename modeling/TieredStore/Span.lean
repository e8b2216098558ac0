/-!
# Spans of time

Throughout the library a span of time is a natural number of nanoseconds, and an instant is the
span since a fixed start. Adding never overflows and subtracting stops at zero; a clock that has a
longest span says so itself.
-/

namespace TieredStore

namespace Span

/-- One second. -/
def second : Nat := 1_000_000_000

/-- One millisecond. -/
def millisecond : Nat := 1_000_000

/-- One microsecond. -/
def microsecond : Nat := 1_000

/-- The longest span that a clock can be moved: 64 bits of seconds and all nanoseconds short of
one more. -/
def longest : Nat := UInt64.size * second - 1

/-- The span of whole seconds and further nanoseconds. -/
def ofParts (seconds nanoseconds : Nat) : Nat :=
  seconds * second + nanoseconds

/-- The whole seconds of a span. -/
def seconds (span : Nat) : Nat := span / second

/-- The nanoseconds of a span past its whole seconds. -/
def subsecond (span : Nat) : Nat := span % second

/-- The least multiple of a unit that is no shorter than the span. -/
def roundUp (unit : Nat) (span : Nat) : Nat :=
  (span + (unit - 1)) / unit * unit

/-- A number as exactly `width` decimal digits, without the zeros at the end. -/
def fraction (width value : Nat) : List Char :=
  let digits := Nat.toDigits 10 value
  let padded := List.replicate (width - digits.length) '0' ++ digits
  (padded.reverse.dropWhile (· == '0')).reverse

/-- A span in a unit of so many nanoseconds as a one followed by `places` zeros: an exact decimal,
with a point only where there is something behind it. -/
def decimal (places : Nat) (span : Nat) : String :=
  let unit := Nat.pow 10 places
  match fraction places (span % unit) with
  | [] => toString (span / unit)
  | digits => toString (span / unit) ++ "." ++ String.ofList digits

/-- A span in the largest unit that it reaches. -/
def render (span : Nat) : String :=
  if second ≤ span then decimal 9 span ++ "s"
  else if millisecond ≤ span then decimal 6 span ++ "ms"
  else if microsecond ≤ span then decimal 3 span ++ "µs"
  else toString span ++ "ns"

end Span

end TieredStore
