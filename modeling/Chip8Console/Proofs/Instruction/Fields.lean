import Chip8Console.Instruction.Basic

/-!
# The fields of a word

A word that is written as four nibbles has these nibbles in its fields, and the byte that its lower two make.
What instruction such a word reads as is told by its fields alone.
-/

namespace Chip8Console

namespace Word

theorem toNat_ofNibbles (a b c d : Nibble) :
    (ofNibbles a b c d).toNat = 4096 * a.val + 256 * b.val + 16 * c.val + d.val := by
  have hword : 4096 * a.val + 256 * b.val + 16 * c.val + d.val < 65536 := by omega
  exact UInt16.toNat_ofNat_of_lt' hword

theorem top_ofNibbles (a b c d : Nibble) : (ofNibbles a b c d).top = a := by
  apply Fin.ext
  show (ofNibbles a b c d).toNat / 4096 = a.val
  rw [toNat_ofNibbles]
  omega

theorem x_ofNibbles (a b c d : Nibble) : (ofNibbles a b c d).x = b := by
  apply Fin.ext
  show (ofNibbles a b c d).toNat / 256 % 16 = b.val
  rw [toNat_ofNibbles]
  omega

theorem y_ofNibbles (a b c d : Nibble) : (ofNibbles a b c d).y = c := by
  apply Fin.ext
  show (ofNibbles a b c d).toNat / 16 % 16 = c.val
  rw [toNat_ofNibbles]
  omega

theorem low_ofNibbles (a b c d : Nibble) : (ofNibbles a b c d).low = d := by
  apply Fin.ext
  show (ofNibbles a b c d).toNat % 16 = d.val
  rw [toNat_ofNibbles]
  omega

theorem toNat_byte_ofNibbles (a b c d : Nibble) :
    (ofNibbles a b c d).byte.toNat = 16 * c.val + d.val := by
  have hbyte : (ofNibbles a b c d).toNat % 256 = 16 * c.val + d.val := by
    rw [toNat_ofNibbles]
    omega
  rw [byte, hbyte]
  exact UInt8.toNat_ofNat_of_lt' (show 16 * c.val + d.val < 256 by omega)

end Word

namespace Instruction

/-- The words of class seven. -/
theorem ofWord_seven (x high low : Nibble) :
    ofWord (.ofNibbles 7 x high low) = .addByte x (Word.ofNibbles 7 x high low).byte := by
  rw [ofWord, Word.top_ofNibbles, Word.x_ofNibbles]
  rfl

/-- The words of class eight that are instructions. -/
theorem ofWord_eight (x y : Nibble) :
    ofWord (.ofNibbles 8 x y 0x0) = .copy x y ∧
      ofWord (.ofNibbles 8 x y 0x1) = .or x y ∧
      ofWord (.ofNibbles 8 x y 0x2) = .and x y ∧
      ofWord (.ofNibbles 8 x y 0x3) = .xor x y ∧
      ofWord (.ofNibbles 8 x y 0x4) = .add x y ∧
      ofWord (.ofNibbles 8 x y 0x5) = .sub x y ∧
      ofWord (.ofNibbles 8 x y 0x6) = .shiftRight x y ∧
      ofWord (.ofNibbles 8 x y 0x7) = .subFrom x y ∧
      ofWord (.ofNibbles 8 x y 0xE) = .shiftLeft x y := by
  simp only [ofWord, Word.top_ofNibbles, Word.x_ofNibbles, Word.y_ofNibbles, Word.low_ofNibbles]
  exact ⟨rfl, rfl, rfl, rfl, rfl, rfl, rfl, rfl, rfl⟩

end Instruction

end Chip8Console
