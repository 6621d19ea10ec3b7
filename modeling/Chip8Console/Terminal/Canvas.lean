import Chip8Console.Screen.Basic

/-!
# The drawing on the terminal

A terminal of 80 columns by 40 rows shows the screen in its top left corner, inside a border with a
title. A pixel is a cell with a lower half block, white when it is lit and black when it is dark.
The border stands on black, all else on the default background. Before the first drawing all cells
are blank.
-/

namespace Chip8Console

namespace Canvas

def columns : Nat := 80

def lines : Nat := 40

/-- The column of the right side of the border. -/
def right : Nat := Screen.width + 1

/-- The row of the lower side of the border. -/
def bottom : Nat := Screen.height + 1

inductive Colour where
  | plain
  | black
  | white
  deriving DecidableEq, Repr

def Colour.label : Colour → String
  | plain => "default"
  | black => "black"
  | white => "white"

structure Cell where
  glyph : Char
  ink : Colour
  paper : Colour
  deriving DecidableEq, Repr

def blank : Cell := ⟨' ', .plain, .plain⟩

def pixel (lit : Bool) : Cell := ⟨'▄', if lit then .white else .black, .plain⟩

def title : List Char := "CHIP-8".toList

/-- What the border shows in its upper side between the corners, from the left. -/
def upperSide (k : Nat) : Char := title.getD k '─'

def border (x y : Nat) : Cell :=
  let glyph :=
    if x = 0 then (if y = 0 then '┌' else if y = bottom then '└' else '│')
    else if x = right then (if y = 0 then '┐' else if y = bottom then '┘' else '│')
    else if y = 0 then upperSide (x - 1)
    else '─'
  ⟨glyph, .plain, .black⟩

/-- The cell in column `x` of row `y` after a screen has been drawn. -/
def drawn (screen : Screen) (x y : Nat) : Cell :=
  if right < x || bottom < y then blank
  else if x = 0 || x = right || y = 0 || y = bottom then border x y
  else pixel (screen.pixel (x - 1) (y - 1))

/-- The cell in column `x` of row `y` when the given screen, if any, was the last one drawn. -/
def cell : Option Screen → Nat → Nat → Cell
  | none => fun _ _ => blank
  | some screen => drawn screen

/-! ## What can be read off the terminal -/

/-- The text of some cells without the blanks at its end. -/
def text (cells : List Cell) : String :=
  String.ofList ((cells.map Cell.glyph).reverse.dropWhile (· == ' ')).reverse

def line (shown : Option Screen) (y : Nat) : List Cell :=
  (List.range columns).map fun x => cell shown x y

/-- The different pairs of what stands left and right of the pixel rows. -/
def sides (shown : Option Screen) : List String :=
  ((List.range Screen.height).map fun y =>
    String.ofList [(cell shown 0 (y + 1)).glyph, (cell shown right (y + 1)).glyph]).eraseDups

/-- Whether a cell is a lit or a dark pixel; none for any other cell. -/
def isLit? (c : Cell) : Option Bool :=
  if c = pixel true then some true else if c = pixel false then some false else none

/-- How a pixel row reads: as pixels, or as text if a cell in it is no pixel. -/
inductive RowReading where
  | pixels (row : List Bool)
  | other (text : String)
  deriving DecidableEq, Repr

def pixelRow (shown : Option Screen) (y : Nat) : RowReading :=
  let cells := (List.range Screen.width).map fun x => cell shown (x + 1) (y + 1)
  match cells.mapM isLit? with
  | some row => .pixels row
  | none => .other (text cells)

/-- The pixel rows that are not all dark, with their numbers. -/
def litRows (shown : Option Screen) : List (Nat × RowReading) :=
  ((List.range Screen.height).map fun y => (y, pixelRow shown y)).filter fun (_, reading) =>
    match reading with
    | .pixels row => row.any id
    | .other _ => true

def style (c : Cell) : String :=
  (if c.glyph == ' ' then "blank" else c.ink.label) ++ " on " ++ c.paper.label

/-- How many cells there are of each style that occurs. -/
def styles (shown : Option Screen) : List (String × Nat) :=
  let all := ((List.range lines).flatMap (line shown)).map style
  all.eraseDups.map fun s => (s, all.count s)

end Canvas

end Chip8Console
