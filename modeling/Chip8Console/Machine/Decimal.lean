/-!
# Decimal digits of a byte

The three digits come out by shifting alone. The byte enters the low end of a scratch number bit by
bit from above, with one nibble for each digit over it: before each shift a nibble above four gets
three more, so that the shift carries it into the next decimal place.
-/

namespace Chip8Console.Decimal

/-- Prepares the nibble at a place for the next shift. -/
def adjust (scratch place : Nat) : Nat :=
  if 4 < scratch / Nat.pow 16 place % 16 then scratch + 3 * Nat.pow 16 place else scratch

def shift (scratch : Nat) : Nat := 2 * [2, 3, 4].foldl adjust scratch

/-- The scratch number after all eight shifts. -/
def scratch (b : UInt8) : Nat := Nat.repeat shift 8 b.toNat

/-- Hundreds, tens and ones. -/
def digits (b : UInt8) : List UInt8 :=
  [4, 3, 2].map fun place => UInt8.ofNat (scratch b / Nat.pow 16 place % 16)

end Chip8Console.Decimal
