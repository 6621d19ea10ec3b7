/-!
# Lengths of time as text

A length of time is a number of nanoseconds. Its text uses the largest of seconds, milliseconds,
microseconds and nanoseconds that goes into it at least once, and after the point as many digits as
it takes to be exact, without trailing zeros.
-/

namespace Chip8Console.Interval

/-- The `places` digits of a fraction of `10 ^ places` parts, the first one first. -/
def fractionDigits (places part : Nat) : List Char :=
  (List.range places).map fun k => Char.ofNat (48 + part / Nat.pow 10 (places - 1 - k) % 10)

def withoutTrailingZeros (ds : List Char) : List Char :=
  (ds.reverse.dropWhile (· == '0')).reverse

/-- `ns` counted in units of `10 ^ places` nanoseconds. -/
def inUnit (places : Nat) (unit : String) (ns : Nat) : String :=
  let fraction := withoutTrailingZeros (fractionDigits places (ns % Nat.pow 10 places))
  toString (ns / Nat.pow 10 places)
    ++ (if fraction.isEmpty then "" else "." ++ String.ofList fraction) ++ unit

def text (ns : Nat) : String :=
  if 1000000000 ≤ ns then inUnit 9 "s" ns
  else if 1000000 ≤ ns then inUnit 6 "ms" ns
  else if 1000 ≤ ns then inUnit 3 "µs" ns
  else inUnit 0 "ns" ns

end Chip8Console.Interval
