import Chip8Console.Machine.Basic

/-!
# Machine state as text

One line that shows what matters when a program has gone wrong: counters and registers in
hexadecimal, the return addresses that are on the stack, the timers, and a pending key wait.
-/

namespace Chip8Console.Machine

private def bracketed (items : List String) : String := "[" ++ ", ".intercalate items ++ "]"

private def waitText : Option Nibble → String
  | none => "None"
  | some x => "Some(" ++ toString x.val ++ ")"

def dump (m : Machine) : String :=
  "Machine \x7b pc: 0x" ++ Hex.lower 3 m.pc.toNat
    ++ ", i: 0x" ++ Hex.lower 3 m.i.toNat
    ++ ", v: " ++ bracketed (m.v.toList.map fun b => Hex.upper 2 b.toNat)
    ++ ", sp: " ++ toString m.stack.depth.val
    ++ ", stack: " ++ bracketed (m.stack.toList.map fun a => Hex.upper 3 a.toNat)
    ++ ", timers: " ++ m.timers.dump
    ++ ", awaiting_key: " ++ waitText m.waiting ++ " \x7d"

end Chip8Console.Machine
