import Chip8Console.Timers.Basic

/-!
# Ticks from elapsed time

The timers count down at a fixed rate, whatever else goes on. A pacer collects elapsed time and
releases one tick for every whole period it holds; what is left over waits for the next time. All
times are whole nanoseconds, and a period is a second divided by the rate, rounded down.

Above a rate of a thousand million the period is zero. Such a pacer never comes to hold less than a
period, so it releases ticks without end: `settle` then runs out of any fuel.
-/

namespace Chip8Console

/-- The nanoseconds between two events that happen `rate` times a second; a rate of zero counts as
one. -/
def periodOf (rate : UInt32) : Nat := 1000000000 / max rate.toNat 1

structure Pacer where
  period : Nat
  /-- Time that has not been turned into ticks. -/
  pending : Nat
  deriving DecidableEq, Repr

namespace Pacer

def ofRate (rate : UInt32) : Pacer := ⟨periodOf rate, 0⟩

/-- Releases ticks until less than a period is pending, and adds their number to `count`; none if
that takes `fuel` releases or more. The number is a 32-bit word. -/
def settle (period : Nat) : (fuel pending : Nat) → Timers → UInt32 → Option (Nat × Timers × UInt32)
  | 0, _, _, _ => none
  | fuel + 1, pending, timers, count =>
    if period ≤ pending then settle period fuel (pending - period) timers.tick (count + 1)
    else some (pending, timers, count)

/-- Adds elapsed time and releases the ticks that are due, and counts them; none if there is no end
to them. -/
def elapse (p : Pacer) (elapsed : Nat) (timers : Timers) : Option (Pacer × Timers × UInt32) :=
  let held := p.pending + elapsed
  (settle p.period (held / p.period + 1) held timers 0).map fun (pending, timers, count) =>
    ({ p with pending }, timers, count)

end Pacer

end Chip8Console
