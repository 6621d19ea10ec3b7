import Chip8Console.Text.Hex

/-!
# Faults

What can go wrong while an instruction executes. A stack fault names the instruction at which it
arose, a memory fault the cells that were asked for. `message` is the sentence for a person,
`form` the value written out field by field.
-/

namespace Chip8Console

inductive Fault where
  | stackOverflow (pc : UInt16)
  | stackUnderflow (pc : UInt16)
  | outOfRange (addr len : Nat)
  deriving DecidableEq, Repr

namespace Fault

def message : Fault → String
  | stackOverflow pc =>
    "stack overflow: call at 0x" ++ Hex.upper 3 pc.toNat ++ " with all 15 stack levels in use"
  | stackUnderflow pc =>
    "stack underflow: return at 0x" ++ Hex.upper 3 pc.toNat ++ " with an empty call stack"
  | outOfRange addr len =>
    "memory access out of range: " ++ toString len ++ " byte(s) at 0x" ++ Hex.upper 4 addr

def form : Fault → String
  | stackOverflow pc => "StackOverflow \x7b pc: " ++ toString pc.toNat ++ " \x7d"
  | stackUnderflow pc => "StackUnderflow \x7b pc: " ++ toString pc.toNat ++ " \x7d"
  | outOfRange addr len =>
    "AddressOutOfRange \x7b addr: " ++ toString addr ++ ", len: " ++ toString len ++ " \x7d"

end Fault

end Chip8Console
