import Chip8Console.CallStack
import Chip8Console.Keypad.Keys
import Chip8Console.Keystream
import Chip8Console.Ram.Image
import Chip8Console.Screen.Basic
import Chip8Console.Timers.Basic

/-!
# The machine

All that a running program can observe or change, and what a host does to it from outside: loading a
program, pressing and releasing keys, giving up a key wait, and taking note of a changed screen.
Instructions are executed in `Machine.Exec`.

Loading resets everything but memory, the random words and the setting; a pending key wait is a
register that the next key to go down will fill.
-/

namespace Chip8Console

structure Machine where
  ram : Ram
  v : Vector UInt8 16
  i : UInt16
  pc : UInt16
  stack : CallStack
  timers : Timers
  screen : Screen
  /-- Whether the screen may have changed since the host last drew it. -/
  stale : Bool
  keys : Keys
  /-- The register that the next key to go down fills. -/
  waiting : Option Nibble
  rng : Keystream
  /-- Whether a skip instruction that finds its key pressed lets it go, so that it sees each press
  once. -/
  consumesKeys : Bool
  deriving DecidableEq

namespace Machine

/-- A machine without a program, whose random words come from the given stream. -/
def fresh (consumesKeys : Bool) (rng : Keystream) : Machine where
  ram := .fresh
  v := Vector.replicate 16 0
  i := 0
  pc := 0x200
  stack := .empty
  timers := .zero
  screen := .blank
  stale := false
  keys := .none
  waiting := none
  rng
  consumesKeys

def ofSeed (consumesKeys : Bool) (seed : UInt64) : Machine :=
  fresh consumesKeys (.ofSeed seed)

/-- Back to the start, with the same memory. -/
def reset (m : Machine) : Machine :=
  { m with
    v := Vector.replicate 16 0
    i := 0
    pc := 0x200
    stack := .empty
    timers := .zero
    screen := .blank
    stale := true
    keys := .none
    waiting := none }

/-- Loads a program image and, if that succeeds, resets. -/
def load (m : Machine) (source : ByteSource) : Machine × Loading :=
  match m.ram.load source with
  | (ram, .done len) => ({ m with ram }.reset, .done len)
  | (ram, other) => ({ m with ram }, other)

def fetch (m : Machine) : Except Fault Word := m.ram.word m.pc

/-- Puts an address on the stack, on behalf of the instruction at `pc`. -/
def push (m : Machine) (address pc : UInt16) : Except Fault Machine :=
  match m.stack.push? address with
  | none => .error (.stackOverflow pc)
  | some stack => .ok { m with stack }

/-- Takes an address off the stack, on behalf of the instruction at `pc`. -/
def pop (m : Machine) (pc : UInt16) : Except Fault (UInt16 × Machine) :=
  match m.stack.pop? with
  | none => .error (.stackUnderflow pc)
  | some (address, stack) => .ok (address, { m with stack })

/-- A key goes down, and answers a pending wait. -/
def pressKey (m : Machine) (key : UInt8) : Machine :=
  let k := Keys.named key
  let m := { m with keys := m.keys.press k }
  match m.waiting with
  | none => m
  | some x => { m with waiting := none, v := Nibble.put m.v x (UInt8.ofNat k.val) }

def releaseKey (m : Machine) (key : UInt8) : Machine :=
  { m with keys := m.keys.release (Keys.named key) }

def holdsKey (m : Machine) (key : UInt8) : Bool := m.keys.pressed (Keys.named key)

def abandonWait (m : Machine) : Machine := { m with waiting := none }

/-- The machine once the host has taken note of the screen. -/
def noted (m : Machine) : Machine := { m with stale := false }

def tick (m : Machine) : Machine := { m with timers := m.timers.tick }

end Machine

end Chip8Console
