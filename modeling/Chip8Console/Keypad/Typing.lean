import Chip8Console.Keypad.Signal

/-!
# Signals from typed characters

What a terminal sends when keys are struck. Most keys send their character. Control with a letter
sends the place of the letter in the alphabet; the four numbers behind those stand for the digits
from four to seven, and zero for the space bar. An escape with the letter `O` or a bracket begins a
sequence. An escape before any other character is the alternate key, which makes no difference here.

An escape on its own looks like the beginning of a sequence. It counts as the escape key when a
second one follows, or when nothing follows it.
-/

namespace Chip8Console

def Keystroke.ofChar (c : Char) : Keystroke :=
  if c = '\x1b' then ⟨.escape, false⟩
  else if c = '\x0d' then ⟨.special .enter, false⟩
  else if c = '\x09' then ⟨.special .tab, false⟩
  else if c = '\x7f' then ⟨.special .backspace, false⟩
  else if c = '\x00' then ⟨.char ' ', true⟩
  else if c.toNat ≤ 26 then ⟨.char (Char.ofNat (c.toNat + 96)), true⟩
  else if c.toNat < 32 then ⟨.char (Char.ofNat (c.toNat + 24)), true⟩
  else ⟨.char c, false⟩

/-- What has been typed of something that is not over. -/
inductive Typing where
  | nothing
  | escape
  /-- An escape and the letter `O`. -/
  | function
  /-- An escape, a bracket, and these characters. -/
  | sequence (cs : List Char)
  deriving DecidableEq, Repr

namespace Typing

/-- One more character. -/
def take : Typing → Char → Typing × Option Signal
  | nothing, c => if c = '\x1b' then (escape, none) else (nothing, some (.stroke (.ofChar c)))
  | escape, c =>
    if c = 'O' then (function, none)
    else if c = '[' then (sequence [], none)
    else (nothing, some (.stroke (.ofChar c)))
  | function, c => (nothing, (EscapeSequence.function? c).map .special)
  | sequence cs, c =>
    match EscapeSequence.read (cs ++ [c]) with
    | .unfinished => (sequence (cs ++ [c]), none)
    | .finished signal => (nothing, signal)

def takeAll : Typing → List Char → Typing × List Signal
  | t, [] => (t, [])
  | t, c :: cs =>
    let (t, signal) := t.take c
    let (t, signals) := t.takeAll cs
    (t, signal.toList ++ signals)

/-- Nothing follows for now. -/
def pause : Typing → Typing × List Signal
  | escape => (nothing, [.stroke ⟨.escape, false⟩])
  | t => (t, [])

end Typing

end Chip8Console
