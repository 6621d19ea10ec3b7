import Chip8Console.Screen.Basic

/-!
# Sprites

A sprite is a list of bytes, one for each row from the top, and a row is eight columns wide with its
leftmost column in the highest bit. Drawing a sprite turns over the screen pixels under its lit
cells, and reports a collision if any of them was lit.
-/

namespace Chip8Console

namespace Sprite

/-- Whether a sprite row is lit in a column. -/
def bit (row : UInt8) (column : Nat) : Bool := row.toNat.testBit (7 - column)

/-- Columns and rows of the lit cells. -/
def cells (rows : List UInt8) : List (Nat × Nat) :=
  rows.zipIdx.flatMap fun (row, r) =>
    ((List.range 8).filter (bit row)).map fun c => (c, r)

end Sprite

namespace Screen

/-- Turns over each of the listed pixels in turn; true if one of them was lit at its turn. -/
def toggleAll (s : Screen) : List (Nat × Nat) → Screen × Bool
  | [] => (s, false)
  | (x, y) :: places =>
    let (next, dark) := s.toggle x y
    let (last, hit) := next.toggleAll places
    (last, dark || hit)

/-- Draws a sprite with its top left cell at column `x` of row `y`. -/
def drawSprite (s : Screen) (x y : Nat) (rows : List UInt8) : Screen × Bool :=
  s.toggleAll ((Sprite.cells rows).map fun (c, r) => (x + c, y + r))

end Screen

end Chip8Console
