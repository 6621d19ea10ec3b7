import Chip8Console.Fault

/-!
# How a run ends

A run ends by itself when the host is asked to stop or the agreed number of cycles is over, and by
an error when an instruction faults or the terminal fails. A key wait that was asked for on its own
ends with a key or without one.
-/

namespace Chip8Console

inductive HostError where
  | fault (f : Fault)
  | terminal (reason : String)
  deriving DecidableEq, Repr

namespace HostError

def message : HostError → String
  | fault f => f.message
  | terminal reason => "terminal i/o failed: " ++ reason

def form : HostError → String
  | fault f => "Fault(" ++ f.form ++ ")"
  | terminal reason => "Io(" ++ reason ++ ")"

end HostError

inductive Ending where
  | quit
  | cycleLimit
  /-- A key wait was answered; the byte is what stands in the register. -/
  | pressed (key : UInt8)
  | cancelled
  | failed (e : HostError)
  deriving DecidableEq, Repr

end Chip8Console
