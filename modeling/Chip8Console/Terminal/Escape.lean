import Chip8Console.Terminal.Canvas

/-!
# The drawing as escape sequences

The text that makes a terminal show a canvas: each line of cells at its place, and a change of
colours wherever a cell has other colours than the one before it.
-/

namespace Chip8Console.Canvas

def escape (code : String) : String := "\x1b[" ++ code

def clear : String := escape "2J"

def hideCursor : String := escape "?25l"

def showCursor : String := escape "?25h"

/-- Goes to a column of a row, both counted from zero. -/
def moveTo (x y : Nat) : String := escape (toString (y + 1) ++ ";" ++ toString (x + 1) ++ "H")

def plainColours : String := escape "0m"

/-- The number of a colour among those of letters; backgrounds are ten further on. -/
def Colour.code : Colour → Nat
  | plain => 39
  | black => 30
  | white => 37

def colours (c : Cell) : String :=
  escape (toString c.ink.code ++ ";" ++ toString (c.paper.code + 10) ++ "m")

/-- Cells in a row, after a cell in the given colours if there is one. -/
def paintCells : Option (Colour × Colour) → List Cell → String
  | _, [] => ""
  | before, c :: cs =>
    (if before = some (c.ink, c.paper) then "" else colours c) ++ String.singleton c.glyph
      ++ paintCells (some (c.ink, c.paper)) cs

/-- The part of a line that the drawing covers. -/
def paintLine (screen : Screen) (y : Nat) : String :=
  moveTo 0 y ++ paintCells none ((List.range (right + 1)).map fun x => drawn screen x y)

def paint (screen : Screen) : String :=
  String.join ((List.range (bottom + 1)).map (paintLine screen)) ++ plainColours

end Chip8Console.Canvas
