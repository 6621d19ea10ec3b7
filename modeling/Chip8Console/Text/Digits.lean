/-!
# Digits

Whole numbers are written in decimal digits.
-/

namespace Chip8Console.Digits

/-- The value of decimal digits; none if there are none or one of them is not an ASCII digit. -/
def value? (cs : List Char) : Option Nat :=
  if cs.isEmpty || !cs.all Char.isDigit then none
  else some (cs.foldl (fun n c => 10 * n + (c.toNat - '0'.toNat)) 0)

end Chip8Console.Digits
