import Chip8Console.Keypad.Key
import Chip8Console.Keypad.Layout

/-!
# Keys held on a terminal

A terminal reports that a key is struck, and again and again while it is held, but never that it is
let go. So a key counts as held until no report of it has come for 150 milliseconds. It goes down
with the first report, later reports only renew the time, and at the end of a poll the keys that are
overdue go up, the lowest first.

Escape, and the letter `c` with control, ask the host to stop. Times are nanoseconds; a clock that
has gone back counts as no time passed.
-/

namespace Chip8Console

structure Keyboard where
  layout : Layout
  /-- For each key that is held, when it was last reported. -/
  since : Vector (Option Nat) 16

namespace Keyboard

def holdTime : Nat := 150000000

def ofLayout (layout : Layout) : Keyboard := ⟨layout, Vector.replicate 16 none⟩

def asksToStop (stroke : Keystroke) : Bool :=
  stroke.key == .escape || (stroke.key == .char 'c' && stroke.control)

/-- The keypad key of a keystroke that does not ask the host to stop. -/
def target? (kb : Keyboard) (stroke : Keystroke) : Option Nibble :=
  match stroke.key with
  | .char c => kb.layout.keyOf? c
  | _ => none

/-- A key is struck. -/
def strike (kb : Keyboard) (now : Nat) (stroke : Keystroke) : Keyboard × List KeyEvent :=
  if asksToStop stroke then (kb, [.quit])
  else
    match kb.target? stroke with
    | none => (kb, [])
    | some k =>
      ({ kb with since := Nibble.put kb.since k (some now) },
        if kb.since[k].isNone then [.down (UInt8.ofNat k.val)] else [])

def strikes (kb : Keyboard) (now : Nat) : List Keystroke → Keyboard × List KeyEvent
  | [] => (kb, [])
  | stroke :: strokes =>
    let (kb, first) := kb.strike now stroke
    let (kb, rest) := kb.strikes now strokes
    (kb, first ++ rest)

def overdue (kb : Keyboard) (now : Nat) (k : Nibble) : Bool :=
  match kb.since[k] with
  | none => false
  | some t => holdTime ≤ now - t

/-- Lets go of the keys that are overdue. -/
def releaseOverdue (kb : Keyboard) (now : Nat) : Keyboard × List KeyEvent :=
  ({ kb with since := Vector.ofFn fun k => if kb.overdue now k then none else kb.since[k] },
    ((List.finRange 16).filter (kb.overdue now)).map fun k => .up (UInt8.ofNat k.val))

/-- What the host hears of the keystrokes that have come since it last asked. -/
def poll (kb : Keyboard) (now : Nat) (strokes : List Keystroke) : Keyboard × List KeyEvent :=
  let (kb, struck) := kb.strikes now strokes
  let (kb, released) := kb.releaseOverdue now
  (kb, struck ++ released)

/-- The keys that are held, the lowest first. -/
def held (kb : Keyboard) : List Nibble :=
  (List.finRange 16).filter fun k => kb.since[k].isSome

end Keyboard

end Chip8Console
