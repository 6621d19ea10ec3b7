import Chip8Console.Nibble

/-!
# Instruction words

A program is a sequence of 16-bit words. `Instruction.ofWord` reads a word as one of thirty-five
instruction forms with its operands; a word that fits none of them is an `unknown` instruction that
carries the word itself, so every word reads as something. `Instruction.toWord` writes an
instruction back.

The operand fields overlap: below the top nibble, which selects the class, a word holds either a
12-bit address, or two register numbers and a nibble, or a register number and a byte.
-/

namespace Chip8Console

/-- An address as an instruction can name it. -/
abbrev Address := Fin 4096

abbrev Word := UInt16

namespace Word

def top (w : Word) : Nibble :=
  ⟨w.toNat / 4096, by have := w.toNat_lt; omega⟩

def address (w : Word) : Address := ⟨w.toNat % 4096, by omega⟩

def x (w : Word) : Nibble := ⟨w.toNat / 256 % 16, by omega⟩

def y (w : Word) : Nibble := ⟨w.toNat / 16 % 16, by omega⟩

def low (w : Word) : Nibble := ⟨w.toNat % 16, by omega⟩

def byte (w : Word) : UInt8 := UInt8.ofNat (w.toNat % 256)

/-- The word of two consecutive program bytes, the high one first. -/
def ofBytes (high low : UInt8) : Word := UInt16.ofNat (256 * high.toNat + low.toNat)

/-- The word with the given four nibbles, the top one first. -/
def ofNibbles (a b c d : Nibble) : Word :=
  UInt16.ofNat (4096 * a.val + 256 * b.val + 16 * c.val + d.val)

end Word

/-- The instruction forms. Registers are written `x` and `y`, with `v` the register file, and the
flag is register fifteen. -/
inductive Instruction where
  /-- `00E0`: darken the screen -/
  | clear
  /-- `00EE`: return from a call -/
  | ret
  /-- `1NNN` -/
  | jump (target : Address)
  /-- `2NNN` -/
  | call (target : Address)
  /-- `3XKK`: skip the next instruction if `v x = k` -/
  | skipEqByte (x : Nibble) (k : UInt8)
  /-- `4XKK` -/
  | skipNeByte (x : Nibble) (k : UInt8)
  /-- `5XY0` -/
  | skipEq (x y : Nibble)
  /-- `6XKK` -/
  | setByte (x : Nibble) (k : UInt8)
  /-- `7XKK`: add without a flag -/
  | addByte (x : Nibble) (k : UInt8)
  /-- `8XY0` -/
  | copy (x y : Nibble)
  /-- `8XY1` -/
  | or (x y : Nibble)
  /-- `8XY2` -/
  | and (x y : Nibble)
  /-- `8XY3` -/
  | xor (x y : Nibble)
  /-- `8XY4`: the flag is the carry -/
  | add (x y : Nibble)
  /-- `8XY5`: `v x - v y`, the flag is set when nothing is borrowed -/
  | sub (x y : Nibble)
  /-- `8XY6`: the flag is the bit shifted out -/
  | shiftRight (x y : Nibble)
  /-- `8XY7`: `v y - v x`, the flag is set when nothing is borrowed -/
  | subFrom (x y : Nibble)
  /-- `8XYE`: the flag is the bit shifted out -/
  | shiftLeft (x y : Nibble)
  /-- `9XY0` -/
  | skipNe (x y : Nibble)
  /-- `ANNN` -/
  | setIndex (a : Address)
  /-- `BNNN`: jump to the address plus `v 0` -/
  | jumpOffset (a : Address)
  /-- `CXKK`: a random byte under the mask `k` -/
  | random (x : Nibble) (k : UInt8)
  /-- `DXYN`: draw `n` sprite rows; the flag is a collision -/
  | draw (x y n : Nibble)
  /-- `EX9E`: skip if the key in `v x` is pressed -/
  | skipPressed (x : Nibble)
  /-- `EXA1`: skip unless the key in `v x` is pressed -/
  | skipReleased (x : Nibble)
  /-- `FX07` -/
  | readDelay (x : Nibble)
  /-- `FX0A`: wait for a key to go down -/
  | awaitKey (x : Nibble)
  /-- `FX15` -/
  | setDelay (x : Nibble)
  /-- `FX18` -/
  | setSound (x : Nibble)
  /-- `FX1E` -/
  | addIndex (x : Nibble)
  /-- `FX29`: the address of a font glyph -/
  | glyph (x : Nibble)
  /-- `FX33`: the three decimal digits of `v x` -/
  | decimal (x : Nibble)
  /-- `FX55`: store registers zero to `x` -/
  | store (x : Nibble)
  /-- `FX65`: load registers zero to `x` -/
  | load (x : Nibble)
  /-- Any other word. -/
  | unknown (w : Word)
  deriving DecidableEq, Repr

namespace Instruction

def ofWord (w : Word) : Instruction :=
  match w.top.val with
  | 0x0 => if w = 0x00E0 then .clear else if w = 0x00EE then .ret else .unknown w
  | 0x1 => .jump w.address
  | 0x2 => .call w.address
  | 0x3 => .skipEqByte w.x w.byte
  | 0x4 => .skipNeByte w.x w.byte
  | 0x5 => if w.low = 0 then .skipEq w.x w.y else .unknown w
  | 0x6 => .setByte w.x w.byte
  | 0x7 => .addByte w.x w.byte
  | 0x8 =>
    match w.low.val with
    | 0x0 => .copy w.x w.y
    | 0x1 => .or w.x w.y
    | 0x2 => .and w.x w.y
    | 0x3 => .xor w.x w.y
    | 0x4 => .add w.x w.y
    | 0x5 => .sub w.x w.y
    | 0x6 => .shiftRight w.x w.y
    | 0x7 => .subFrom w.x w.y
    | 0xE => .shiftLeft w.x w.y
    | _ => .unknown w
  | 0x9 => if w.low = 0 then .skipNe w.x w.y else .unknown w
  | 0xA => .setIndex w.address
  | 0xB => .jumpOffset w.address
  | 0xC => .random w.x w.byte
  | 0xD => .draw w.x w.y w.low
  | 0xE =>
    if w.byte = 0x9E then .skipPressed w.x
    else if w.byte = 0xA1 then .skipReleased w.x
    else .unknown w
  | 0xF =>
    match w.byte.toNat with
    | 0x07 => .readDelay w.x
    | 0x0A => .awaitKey w.x
    | 0x15 => .setDelay w.x
    | 0x18 => .setSound w.x
    | 0x1E => .addIndex w.x
    | 0x29 => .glyph w.x
    | 0x33 => .decimal w.x
    | 0x55 => .store w.x
    | 0x65 => .load w.x
    | _ => .unknown w
  | _ => .unknown w

/-- A word of the class `c` that names an address. -/
private def addressed (c : Nat) (a : Address) : Word := UInt16.ofNat (4096 * c + a.val)

/-- A word of the class `c` that names a register and a byte. -/
private def withByte (c : Nat) (x : Nibble) (k : UInt8) : Word :=
  UInt16.ofNat (4096 * c + 256 * x.val + k.toNat)

def toWord : Instruction → Word
  | clear => 0x00E0
  | ret => 0x00EE
  | jump a => addressed 0x1 a
  | call a => addressed 0x2 a
  | skipEqByte x k => withByte 0x3 x k
  | skipNeByte x k => withByte 0x4 x k
  | skipEq x y => Word.ofNibbles 0x5 x y 0x0
  | setByte x k => withByte 0x6 x k
  | addByte x k => withByte 0x7 x k
  | copy x y => Word.ofNibbles 0x8 x y 0x0
  | or x y => Word.ofNibbles 0x8 x y 0x1
  | and x y => Word.ofNibbles 0x8 x y 0x2
  | xor x y => Word.ofNibbles 0x8 x y 0x3
  | add x y => Word.ofNibbles 0x8 x y 0x4
  | sub x y => Word.ofNibbles 0x8 x y 0x5
  | shiftRight x y => Word.ofNibbles 0x8 x y 0x6
  | subFrom x y => Word.ofNibbles 0x8 x y 0x7
  | shiftLeft x y => Word.ofNibbles 0x8 x y 0xE
  | skipNe x y => Word.ofNibbles 0x9 x y 0x0
  | setIndex a => addressed 0xA a
  | jumpOffset a => addressed 0xB a
  | random x k => withByte 0xC x k
  | draw x y n => Word.ofNibbles 0xD x y n
  | skipPressed x => withByte 0xE x 0x9E
  | skipReleased x => withByte 0xE x 0xA1
  | readDelay x => withByte 0xF x 0x07
  | awaitKey x => withByte 0xF x 0x0A
  | setDelay x => withByte 0xF x 0x15
  | setSound x => withByte 0xF x 0x18
  | addIndex x => withByte 0xF x 0x1E
  | glyph x => withByte 0xF x 0x29
  | decimal x => withByte 0xF x 0x33
  | store x => withByte 0xF x 0x55
  | load x => withByte 0xF x 0x65
  | unknown w => w

end Instruction

end Chip8Console
