/-!
# The screen

64 columns by 32 rows of pixels, row by row, each lit or dark. Coordinates of any size wrap around
the edges.
-/

namespace Chip8Console

structure Screen where
  pixels : Vector Bool 2048
  deriving DecidableEq

namespace Screen

def width : Nat := 64

def height : Nat := 32

def blank : Screen := ⟨Vector.replicate 2048 false⟩

/-- The place of the pixel in column `x` of row `y`. -/
def index (x y : Nat) : Fin 2048 := ⟨64 * (y % 32) + x % 64, by omega⟩

def pixel (s : Screen) (x y : Nat) : Bool := s.pixels[index x y]

/-- Turns a pixel over; true if it was lit and went dark. -/
def toggle (s : Screen) (x y : Nat) : Screen × Bool :=
  (⟨s.pixels.set (index x y).val (!s.pixel x y) (index x y).isLt⟩, s.pixel x y)

/-- How many pixels are lit. -/
def litCount (s : Screen) : Nat := s.pixels.toList.count true

def row (s : Screen) (y : Nat) : List Bool := (List.range width).map fun x => s.pixel x y

def rows (s : Screen) : List (List Bool) := (List.range height).map s.row

/-- A row as a binary number, the leftmost pixel in the highest place. -/
def rowBits (row : List Bool) : Nat := row.foldl (fun n b => 2 * n + b.toNat) 0

/-- One line of `#` and `.` for each row. -/
def lines (s : Screen) : List String :=
  s.rows.map fun row => String.ofList (row.map fun lit => if lit then '#' else '.')

/-- The pixels as bytes, one for a lit pixel and zero for a dark one. -/
def toBytes (s : Screen) : List UInt8 := s.pixels.toList.map fun lit => if lit then 1 else 0

end Screen

end Chip8Console
