import Chip8Console.Proofs.Host.Frames
import Chip8Console.Proofs.Host.Itinerary
import Chip8Console.Proofs.Host.Service

/-!
# What takes time

A host's clock moves when it is polled, when it shows the screen and when it sleeps; steps and services of
the timers take no time. At the end of a cycle the screen is shown if it may have changed, and then the host
sleeps for what is left of the cycle's time, if any is left. A poll that leaves a key wait unanswered is
followed by a sleep of one period of the timers; the screen is not shown again while the wait lasts, since
nothing changes it.
-/

namespace Chip8Console

def Poll.cost : Poll → Nat
  | answered cost _ => cost
  | lost _ => 0

def costOf : List Poll → Nat
  | [] => 0
  | poll :: polls => poll.cost + costOf polls

theorem costOf_append (polls more : List Poll) : costOf (polls ++ more) = costOf polls + costOf more := by
  induction polls with
  | nil => exact (Nat.zero_add _).symm
  | cons poll polls ih => rw [List.cons_append, costOf, costOf, ih, Nat.add_assoc]

/-- How the count of frames goes on when the screen is shown for some cost, or not shown. -/
inductive Rig.Shows (rig : Rig) (frames : Nat) : Option Nat → Nat → Prop where
  | nothing : rig.Shows frames none frames
  | screen {cost : Nat} (hdraw : rig.draw frames = .ok cost) : rig.Shows frames (some cost) (frames + 1)

def Stage.Fails : Stage → Prop
  | .ended (.failed _) _ | .stalled => True
  | _ => False

namespace Host

variable {rig : Rig} {h middle next : Host} {c : Cycle}

theorem hear_clock (h : Host) (es : List KeyEvent) : (h.hear es).1.clock = h.clock := by
  induction es generalizing h with
  | nil => rfl
  | cons e es ih =>
      cases e with
      | quit => rfl
      | down key =>
          refine (ih _).trans ?_
          rw [noteAll_eq]
      | up key => exact ih _

theorem receive_clock (h : Host) (arrival : Arrival) : (h.receive arrival).1.clock = h.clock := by
  cases arrival with
  | events es => rfl
  | strokes ks =>
      show (Host.noteAll _ _).clock = h.clock
      rw [noteAll_eq]

/-- A change that takes some time and shows nothing. -/
structure Spends (h : Host) (time : Nat) (next : Host) : Prop where
  clock : next.clock = h.clock + time
  period : next.pacer.period = h.pacer.period
  frames : next.frames = h.frames

namespace Spends

theorem trans {time later : Nat} (first : h.Spends time middle) (second : middle.Spends later next) :
    h.Spends (time + later) next where
  clock := by rw [second.clock, first.clock, Nat.add_assoc]
  period := second.period.trans first.period
  frames := second.frames.trans first.frames

theorem started_le {time : Nat} (hspends : h.Spends time next) (hstarted : c.started = h.clock) :
    c.started ≤ next.clock := by
  rw [hstarted, hspends.clock]
  exact Nat.le_add_right _ _

theorem note (h : Host) (n : Notice) : h.Spends 0 (h.note n) := ⟨rfl, rfl, rfl⟩

theorem elapse (h : Host) (time : Nat) : h.Spends time (h.elapse time) := ⟨rfl, rfl, rfl⟩

theorem of_poll {poll : Poll} {heard : Heard} (hpoll : h.poll poll = (next, heard)) :
    h.Spends poll.cost next := by
  obtain rfl : (h.poll poll).1 = next := congrArg Prod.fst hpoll
  refine ⟨?_, congrArg Pacer.period (Quiet.poll h poll).pacer, (Aside.poll h poll).frames⟩
  cases poll with
  | lost reason => rfl
  | answered cost arrival =>
      rw [poll_answered, hearing, hear_clock, receive_clock]
      rfl

theorem of_step {outcome : Outcome} (hstep : h.step = (next, outcome)) : h.Spends 0 next := by
  obtain rfl : h.step.1 = next := congrArg Prod.fst hstep
  rw [step_eq, recordAll_eq, noteAll_eq]
  exact ⟨rfl, rfl, rfl⟩

theorem of_catchUp (hcaught : h.catchUp rig = some next) : h.Spends 0 next := by
  have hpos : 0 < h.pacer.period := Nat.pos_of_ne_zero fun hzero => by
    rw [catchUp_eq_none hzero] at hcaught
    cases hcaught
  have hserviced := serviced_of_catchUp hpos hcaught
  exact ⟨hserviced.clock, by rw [hserviced.pacer], (Aside.of_catchUp hcaught).frames⟩

end Spends

theorem clock_of_finish {ending : Ending} (hfinish : h.finish rig ending = .ended ending next) :
    next.clock = h.clock := by
  obtain ⟨n, rfl⟩ := exists_note_of_finish hfinish
  exact (Spoken.silence rig h).clock

/-- A host that has shown the screen, if it may have changed. -/
structure Redraws (rig : Rig) (h : Host) (cost : Option Nat) (next : Host) : Prop where
  clock : next.clock = h.clock + cost.getD 0
  period : next.pacer.period = h.pacer.period
  shows : rig.Shows h.frames cost next.frames
  fresh : next.machine.stale = false

theorem exists_redraws_of_present (hpresent : h.present rig = (next, none)) :
    ∃ cost, rig.draw h.frames = .ok cost ∧ h.Redraws rig (some cost) next := by
  have hfresh := stale_of_present hpresent
  unfold present draw at hpresent
  split at hpresent
  · cases hpresent
  · next cost hdraw =>
    cases hpresent
    exact ⟨cost, hdraw, rfl, rfl, .screen hdraw, hfresh⟩

theorem redraw_of_fresh (rig : Rig) (hfresh : h.machine.stale = false) : h.redraw rig = (h, none) := by
  rw [redraw, hfresh]
  rfl

theorem exists_redraws (hredraw : h.redraw rig = (next, none)) : ∃ cost, h.Redraws rig cost next := by
  cases hstale : h.machine.stale with
  | false =>
      rw [redraw_of_fresh rig hstale] at hredraw
      cases hredraw
      exact ⟨none, rfl, rfl, .nothing, hstale⟩
  | true =>
      rw [redraw, hstale] at hredraw
      obtain ⟨cost, -, hredraws⟩ := exists_redraws_of_present hredraw
      exact ⟨some cost, hredraws⟩

/-- A cycle is over, for all that is in it, when the host has slept. -/
structure TurnsOver (rig : Rig) (c : Cycle) (h : Host) (redraw : Option Nat) (next : Host) : Prop where
  clock : next.clock = c.started + max rig.cycle (h.clock - c.started + redraw.getD 0)
  period : next.pacer.period = h.pacer.period
  shows : rig.Shows h.frames redraw next.frames
  fresh : next.machine.stale = false

/-- What is left of a cycle once its instruction has been carried out. -/
theorem endCycle_cases (rig : Rig) (hstarted : c.started ≤ h.clock) :
    (h.endCycle rig c).Fails ∨
      ∃ redraw next, h.endCycle rig c = next.beginCycle rig c.limit (c.done + 1) ∧
        h.TurnsOver rig c redraw next := by
  unfold endCycle
  split
  · exact .inl trivial
  · next caught hcaught =>
    split
    · exact .inl trivial
    · next drawn hredraw =>
      have hspends := Spends.of_catchUp hcaught
      obtain ⟨cost, hredraws⟩ := exists_redraws hredraw
      refine .inr ⟨cost, _, rfl, ?_, ?_, ?_, hredraws.fresh⟩
      · have hclock := hredraws.clock
        rw [hspends.clock] at hclock
        show drawn.clock + (rig.cycle - (drawn.clock - c.started)) = _
        omega
      · exact hredraws.period.trans hspends.period
      · rw [← hspends.frames]
        exact hredraws.shows

/-- What becomes of a key wait of a cycle, if nothing has changed the screen, when a poll has not answered
it. -/
theorem stayWaiting_cases (rig : Rig) (hfresh : h.machine.stale = false) (x : Nibble) (c : Cycle) :
    (h.stayWaiting rig x (some c)).Fails ∨
      ∃ next, h.stayWaiting rig x (some c) = .running (.waiting x (some c)) next ∧
        h.Spends h.pacer.period next ∧ next.machine.stale = false := by
  unfold stayWaiting
  split
  · exact .inl trivial
  · next caught hcaught =>
    have hspends := Spends.of_catchUp hcaught
    have hstill : caught.machine.stale = false := (Aside.of_catchUp hcaught).screen.stale.trans hfresh
    rw [redraw_of_fresh rig hstill]
    have hslept := hspends.trans (.elapse caught caught.pacer.period)
    rw [Nat.zero_add, hspends.period] at hslept
    exact .inr ⟨_, rfl, hspends.period ▸ hslept, hstill⟩

end Host

end Chip8Console
