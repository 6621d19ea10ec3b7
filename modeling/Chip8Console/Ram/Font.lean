import Chip8Console.Ram.Basic

/-!
# The font

Sixteen glyphs, one for each hexadecimal digit, of five sprite rows each. They stand at the bottom
of memory, below everything a program loads.
-/

namespace Chip8Console.Font

def glyphs : List UInt8 :=
  [0xF0, 0x90, 0x90, 0x90, 0xF0, 0x20, 0x60, 0x20, 0x20, 0x70,
    0xF0, 0x10, 0xF0, 0x80, 0xF0, 0xF0, 0x10, 0xF0, 0x10, 0xF0,
    0x90, 0x90, 0xF0, 0x10, 0x10, 0xF0, 0x80, 0xF0, 0x10, 0xF0,
    0xF0, 0x80, 0xF0, 0x90, 0xF0, 0xF0, 0x10, 0x20, 0x40, 0x40,
    0xF0, 0x90, 0xF0, 0x90, 0xF0, 0xF0, 0x90, 0xF0, 0x10, 0xF0,
    0xF0, 0x90, 0xF0, 0x90, 0x90, 0xE0, 0x90, 0xE0, 0x90, 0xE0,
    0xF0, 0x80, 0x80, 0x80, 0xF0, 0xE0, 0x90, 0x90, 0x90, 0xE0,
    0xF0, 0x80, 0xF0, 0x80, 0xF0, 0xF0, 0x80, 0xF0, 0x80, 0x80]

theorem length_glyphs : glyphs.length = 80 := rfl

/-- Where the glyph of a digit starts. -/
def addressOf (digit : Nibble) : UInt16 := UInt16.ofNat (5 * digit.val)

def install (bytes : Vector UInt8 4096) : Vector UInt8 4096 := Ram.overlay bytes 0 glyphs

end Chip8Console.Font

namespace Chip8Console.Ram

/-- Memory that is zero but for the font. -/
def fresh : Ram := ⟨Font.install (Vector.replicate 4096 0), 0x200⟩

end Chip8Console.Ram
