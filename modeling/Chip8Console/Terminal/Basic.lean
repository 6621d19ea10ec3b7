import Chip8Console.Terminal.Canvas

/-!
# The terminal

What a run does to the terminal it is given: while a keyboard reads from it, it is in raw mode;
while a canvas is open on it, its cursor is hidden. Opening a canvas clears the terminal, and
closing it shows the cursor again, on the line below the drawing.
-/

namespace Chip8Console

structure Cursor where
  x : Nat
  y : Nat
  visible : Bool
  deriving DecidableEq, Repr

structure Terminal where
  raw : Bool
  cursor : Cursor
  /-- The screen that was drawn last on the open canvas. -/
  shown : Option Screen
  deriving DecidableEq

namespace Terminal

def idle : Terminal := ⟨false, ⟨0, 0, true⟩, none⟩

def openKeyboard (t : Terminal) : Terminal := { t with raw := true }

def closeKeyboard (t : Terminal) : Terminal := { t with raw := false }

def openCanvas (t : Terminal) : Terminal := { t with cursor := ⟨0, 0, false⟩, shown := none }

def draw (t : Terminal) (screen : Screen) : Terminal := { t with shown := some screen }

def closeCanvas (t : Terminal) : Terminal := { t with cursor := ⟨0, Canvas.bottom + 1, true⟩ }

end Terminal

end Chip8Console
