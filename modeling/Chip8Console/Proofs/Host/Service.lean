import Chip8Console.Proofs.Host.Changes
import Chip8Console.Proofs.Timers.Pacer

/-!
# A service of the timers

A service hands the timers the ticks of the time since the last one, and what is left of it stays pending.
It changes nothing else but the speaker's tone. It comes to an end exactly if the timers' period is not
zero.
-/

namespace Chip8Console.Host

/-- What a service makes of a host when it releases some ticks. -/
structure Serviced (h : Host) (ticks : Nat) (next : Host) : Prop where
  machine : next.machine = { h.machine with timers := h.machine.timers.after ticks }
  keyboard : next.keyboard = h.keyboard
  pacer : next.pacer =
    { h.pacer with pending := (h.pacer.pending + (h.clock - h.timersAt)) % h.pacer.period }
  clock : next.clock = h.clock
  timersAt : next.timersAt = h.clock
  history : ∃ told, Adds Event.spoken h.history told ∧
    next.history = ⟨h.clock, .caughtUp (.ofNat ticks) next.machine.timers⟩ :: told

variable {rig : Rig} {h next : Host}

theorem serviced_of_catchUp (hpos : 0 < h.pacer.period) (hcaught : h.catchUp rig = some next) :
    h.Serviced ((h.pacer.pending + (h.clock - h.timersAt)) / h.pacer.period) next := by
  obtain ⟨pacer, timers, ticks, helapse, rfl⟩ := catchUp_eq_some hcaught
  rw [Pacer.elapse_eq hpos, Option.some.injEq, Prod.mk.injEq, Prod.mk.injEq] at helapse
  obtain ⟨rfl, rfl, rfl⟩ := helapse
  -- What follows the tone leaves the machine with the timers that the event shows.
  obtain ⟨hmachine, hkeyboard, hpacer, hclock, htimersAt, -, -, hhistory⟩ :=
    Spoken.followTone rig (h.ticked _ _)
  refine ⟨hmachine, hkeyboard, hpacer, hclock, htimersAt, _, hhistory, ?_⟩
  rw [record_history, hclock, record_machine, hmachine]
  rfl

theorem catchUp_eq_none (hperiod : h.pacer.period = 0) : h.catchUp rig = none := by
  rw [catchUp, Pacer.elapse_of_period_eq_zero hperiod]
  rfl

theorem catchUp_ne_none (hpos : 0 < h.pacer.period) : h.catchUp rig ≠ none := by
  simp [catchUp, Pacer.elapse_eq hpos]

end Chip8Console.Host
