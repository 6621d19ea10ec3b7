/-!
# The two timers

Two bytes that count down to zero and stay there. A tone sounds while the sound timer is not zero.
-/

namespace Chip8Console

structure Timers where
  delay : UInt8
  sound : UInt8
  deriving DecidableEq, Repr

namespace Timers

def zero : Timers := ⟨0, 0⟩

def countDown (b : UInt8) : UInt8 := if b = 0 then 0 else b - 1

def tick (t : Timers) : Timers := ⟨countDown t.delay, countDown t.sound⟩

def sounding (t : Timers) : Bool := t.sound != 0

def dump (t : Timers) : String :=
  "Timers \x7b delay: " ++ toString t.delay.toNat ++ ", sound: " ++ toString t.sound.toNat
    ++ " \x7d"

end Timers

end Chip8Console
