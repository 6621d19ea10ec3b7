import Chip8Console.Timers.Basic

/-!
# Tone edges

The speaker is told only when the tone starts and when it ends. An edge detector remembers the level
it has last seen and reports an edge when the sound timer shows another one.
-/

namespace Chip8Console

/-- An edge of the tone. -/
inductive Tone where
  | starts
  | ends
  deriving DecidableEq, Repr

structure EdgeDetector where
  on : Bool
  deriving DecidableEq, Repr

namespace EdgeDetector

def observe (t : EdgeDetector) (timers : Timers) : EdgeDetector × Option Tone :=
  match t.on, timers.sounding with
  | false, true => (⟨true⟩, some .starts)
  | true, false => (⟨false⟩, some .ends)
  | _, _ => (t, none)

end EdgeDetector

end Chip8Console
