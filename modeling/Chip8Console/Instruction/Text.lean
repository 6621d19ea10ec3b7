import Chip8Console.Instruction.Basic
import Chip8Console.Text.Hex

/-!
# Instructions as text

Two texts of an instruction. The mnemonic is one line of an assembly listing: registers are `V0` to
`VF`, addresses have three hexadecimal digits, bytes two, and a word that is no instruction is laid
down as data. The form names the instruction and lists its operands in decimal.
-/

namespace Chip8Console.Instruction

private def reg (x : Nibble) : String := "V" ++ Hex.upper 1 x.val

private def addr (a : Address) : String := "0x" ++ Hex.lower 3 a.val

private def byte (k : UInt8) : String := "0x" ++ Hex.lower 2 k.toNat

private def regs (x y : Nibble) : String := reg x ++ ", " ++ reg y

def mnemonic : Instruction → String
  | clear => "CLS"
  | ret => "RET"
  | jump a => "JP " ++ addr a
  | call a => "CALL " ++ addr a
  | skipEqByte x k => "SE " ++ reg x ++ ", " ++ byte k
  | skipNeByte x k => "SNE " ++ reg x ++ ", " ++ byte k
  | skipEq x y => "SE " ++ regs x y
  | setByte x k => "LD " ++ reg x ++ ", " ++ byte k
  | addByte x k => "ADD " ++ reg x ++ ", " ++ byte k
  | copy x y => "LD " ++ regs x y
  | or x y => "OR " ++ regs x y
  | and x y => "AND " ++ regs x y
  | xor x y => "XOR " ++ regs x y
  | add x y => "ADD " ++ regs x y
  | sub x y => "SUB " ++ regs x y
  | shiftRight x y => "SHR " ++ regs x y
  | subFrom x y => "SUBN " ++ regs x y
  | shiftLeft x y => "SHL " ++ regs x y
  | skipNe x y => "SNE " ++ regs x y
  | setIndex a => "LD I, " ++ addr a
  | jumpOffset a => "JP V0, " ++ addr a
  | random x k => "RND " ++ reg x ++ ", " ++ byte k
  | draw x y n => "DRW " ++ regs x y ++ ", " ++ toString n.val
  | skipPressed x => "SKP " ++ reg x
  | skipReleased x => "SKNP " ++ reg x
  | readDelay x => "LD " ++ reg x ++ ", DT"
  | awaitKey x => "LD " ++ reg x ++ ", K"
  | setDelay x => "LD DT, " ++ reg x
  | setSound x => "LD ST, " ++ reg x
  | addIndex x => "ADD I, " ++ reg x
  | glyph x => "LD F, " ++ reg x
  | decimal x => "LD B, " ++ reg x
  | store x => "LD [I], " ++ reg x
  | load x => "LD " ++ reg x ++ ", [I]"
  | unknown w => "DW 0x" ++ Hex.lower 4 w.toNat

private def withOperands (name : String) (operands : List Nat) : String :=
  name ++ "(" ++ ", ".intercalate (operands.map fun n => toString n) ++ ")"

def form : Instruction → String
  | clear => "Cls"
  | ret => "Ret"
  | jump a => withOperands "Jp" [a.val]
  | call a => withOperands "Call" [a.val]
  | skipEqByte x k => withOperands "SeImm" [x.val, k.toNat]
  | skipNeByte x k => withOperands "SneImm" [x.val, k.toNat]
  | skipEq x y => withOperands "SeReg" [x.val, y.val]
  | setByte x k => withOperands "LdImm" [x.val, k.toNat]
  | addByte x k => withOperands "AddImm" [x.val, k.toNat]
  | copy x y => withOperands "LdReg" [x.val, y.val]
  | or x y => withOperands "Or" [x.val, y.val]
  | and x y => withOperands "And" [x.val, y.val]
  | xor x y => withOperands "Xor" [x.val, y.val]
  | add x y => withOperands "AddReg" [x.val, y.val]
  | sub x y => withOperands "Sub" [x.val, y.val]
  | shiftRight x y => withOperands "Shr" [x.val, y.val]
  | subFrom x y => withOperands "Subn" [x.val, y.val]
  | shiftLeft x y => withOperands "Shl" [x.val, y.val]
  | skipNe x y => withOperands "SneReg" [x.val, y.val]
  | setIndex a => withOperands "LdI" [a.val]
  | jumpOffset a => withOperands "JpV0" [a.val]
  | random x k => withOperands "Rnd" [x.val, k.toNat]
  | draw x y n => withOperands "Drw" [x.val, y.val, n.val]
  | skipPressed x => withOperands "Skp" [x.val]
  | skipReleased x => withOperands "Sknp" [x.val]
  | readDelay x => withOperands "LdFromDelay" [x.val]
  | awaitKey x => withOperands "LdKey" [x.val]
  | setDelay x => withOperands "LdDelay" [x.val]
  | setSound x => withOperands "LdSound" [x.val]
  | addIndex x => withOperands "AddI" [x.val]
  | glyph x => withOperands "LdFont" [x.val]
  | decimal x => withOperands "Bcd" [x.val]
  | store x => withOperands "StoreRegs" [x.val]
  | load x => withOperands "LoadRegs" [x.val]
  | unknown w => withOperands "Unknown" [w.toNat]

end Chip8Console.Instruction
