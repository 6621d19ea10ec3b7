import Chip8Console.Nibble

/-!
# The call stack

Sixteen slots for return addresses, filled from slot one up: slot zero is never used, so fifteen
calls can nest. Returning leaves the slot as it is; only the depth says what is on the stack.
-/

namespace Chip8Console

structure CallStack where
  slots : Vector UInt16 16
  /-- How many return addresses are on the stack. -/
  depth : Nibble
  deriving DecidableEq

namespace CallStack

def empty : CallStack := ⟨Vector.replicate 16 0, 0⟩

/-- None when all fifteen levels are in use. -/
def push? (s : CallStack) (address : UInt16) : Option CallStack :=
  if h : s.depth.val < 15 then
    some ⟨s.slots.set (s.depth.val + 1) address, ⟨s.depth.val + 1, by omega⟩⟩
  else none

/-- None when the stack is empty. -/
def pop? (s : CallStack) : Option (UInt16 × CallStack) :=
  if s.depth.val = 0 then none
  else some (s.slots[s.depth], { s with depth := ⟨s.depth.val - 1, by omega⟩ })

/-- The return addresses on the stack, the oldest first. -/
def toList (s : CallStack) : List UInt16 := (s.slots.toList.drop 1).take s.depth.val

end CallStack

end Chip8Console
