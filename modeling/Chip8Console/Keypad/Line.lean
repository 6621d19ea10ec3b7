import Chip8Console.Keypad.Typing

/-!
# The line from a terminal

What is typed stays with the terminal until the line is read. The terminal then hands it over, a
block at most; what is left comes with the next block, and that not before more is typed. A block
that is not full shows that nothing follows for now.

A reading has the keystrokes up to the first signal that is about the cursor. That signal ends the
reading, and those after it wait for the next one. As long as one about the cursor is among those
that wait, the terminal is not asked for more.
-/

namespace Chip8Console

structure Line where
  /-- What is with the terminal. -/
  unread : List Char
  /-- Whether anything has been typed since the terminal last handed over a block. -/
  ringing : Bool
  /-- How the last block ended. -/
  typing : Typing
  /-- The signals that no reading has had. -/
  waiting : List Signal
  deriving DecidableEq, Repr

namespace Line

def quiet : Line := ⟨[], false, .nothing, []⟩

/-- How many bytes a terminal hands over at a time. -/
def blockSize : Nat := 1204

/-- As many characters as fit into a number of bytes, and the others. -/
def splitAtBytes : Nat → List Char → List Char × List Char
  | _, [] => ([], [])
  | n, c :: cs =>
    if c.utf8Size ≤ n then
      let (block, rest) := splitAtBytes (n - c.utf8Size) cs
      (c :: block, rest)
    else ([], c :: cs)

/-- The keystrokes before the first signal about the cursor, and the signals after it. -/
def untilCursor : List Signal → List Keystroke × List Signal
  | [] => ([], [])
  | .cursor :: later => ([], later)
  | .stroke k :: later =>
    let (ks, rest) := untilCursor later
    (k :: ks, rest)

/-- Something is typed, or nothing. -/
def type (l : Line) (text : String) : Line :=
  { l with unread := l.unread ++ text.toList, ringing := l.ringing || !text.isEmpty }

/-- The terminal hands over a block. -/
def handOver (l : Line) : Line :=
  let (block, rest) := splitAtBytes blockSize l.unread
  let (typing, signals) := l.typing.takeAll block
  let (typing, last) := if byteCount l.unread < blockSize then typing.pause else (typing, [])
  ⟨rest, false, typing, l.waiting ++ signals ++ last⟩

/-- The keystrokes that a reading has. -/
def read (l : Line) : Line × List Keystroke :=
  let l := if l.ringing && !l.waiting.contains .cursor then l.handOver else l
  let (strokes, waiting) := untilCursor l.waiting
  ({ l with waiting }, strokes)

/-- The keystrokes of several readings, with what is typed before each of them. -/
def readings (l : Line) : List String → List (List Keystroke)
  | [] => []
  | text :: texts =>
    let (l, strokes) := (l.type text).read
    strokes :: l.readings texts

end Line

end Chip8Console
