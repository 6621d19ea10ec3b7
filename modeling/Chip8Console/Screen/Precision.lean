/-!
# Whole numbers in double precision

Coordinates are drawn in double precision, which keeps the 53 highest bits of a whole number. A
number between two that can be kept becomes the nearer one, and one just in the middle the one whose
last kept bit is zero.
-/

namespace Chip8Console.Precision

/-- How many bits are kept. -/
def bits : Nat := 53

/-- The value of the last kept bit of a number. -/
def unit (n : Nat) : Nat := Nat.pow 2 (n.log2 + 1 - bits)

/-- The multiple of `u` nearest to `n`, the even one of two. -/
def toMultiple (n u : Nat) : Nat :=
  let q := n / u
  let r := n % u
  if u < 2 * r ∨ (u = 2 * r ∧ q % 2 = 1) then (q + 1) * u else q * u

def nearest (n : Nat) : Nat := toMultiple n (unit n)

/-- The same on either side of zero. -/
def nearestInt (z : Int) : Int := z.sign * (nearest z.natAbs : Nat)

end Chip8Console.Precision
