import Chip8Console.Proofs.Timers.Pacer
import Mathlib.Logic.Relation

/-!
# When a pacer comes to rest

A pacer that is handed elapsed time goes around a loop: while a whole period is pending, it takes one off and
ticks the timers once. Nothing but the period decides whether this ends. Every turn takes off a period, so if
the period is not zero there are finitely many turns, and less than a period is left; if it is zero, every
turn can be followed by another one and there is no less than a period to be left.

The period is a second divided by the rate in whole nanoseconds. That is zero for the rates above a thousand
million, and for no others: a rate of zero counts as one.

Times are natural numbers here, so any two of them add up. On a clock with a greatest time this holds where the
sum of what is pending and what is handed over is a time of the clock; elsewhere the loop is not reached. Ticks
are counted in a 32-bit word, and the count goes on from zero when the word is full.
-/

namespace Chip8Console

theorem periodOf_pos_iff {rate : UInt32} : 0 < periodOf rate ↔ rate.toNat ≤ 1000000000 := by
  refine ⟨fun hpos => ?_, periodOf_pos⟩
  have hrate : max rate.toNat 1 ≤ 1000000000 := (Nat.div_pos_iff.1 hpos).2
  omega

/-- What the loop of a pacer works on. -/
structure Settling where
  pending : Nat
  timers : Timers
  ticks : UInt32

namespace Settling

/-- One turn of the loop, which takes a period off. -/
def Releases (period : Nat) (now next : Settling) : Prop :=
  period ≤ now.pending ∧ next = ⟨now.pending - period, now.timers.tick, now.ticks + 1⟩

/-- Whether the loop is left after finitely many turns. -/
def Ends (period : Nat) (start : Settling) : Prop :=
  Acc (fun next now => now.Releases period next) start

variable {period : Nat}

theorem ends_of_pos (hpos : 0 < period) (start : Settling) : start.Ends period := by
  have hless : ∀ {next now : Settling}, now.Releases period next → next.pending < now.pending := by
    rintro next now ⟨hdue, rfl⟩
    exact Nat.sub_lt (Nat.lt_of_lt_of_le hpos hdue) hpos
  exact Subrelation.accessible hless (InvImage.accessible Settling.pending (Nat.lt_wfRel.wf.apply _))

theorem not_ends_zero (start : Settling) : ¬ start.Ends 0 := by
  intro hends
  induction hends with
  | intro now _ ih => exact ih _ ⟨Nat.zero_le now.pending, rfl⟩

end Settling

namespace Pacer

/-- What comes out of the loop is what it releases turn by turn. -/
theorem releases_of_settle {period fuel pending rest : Nat} {timers later : Timers} {count ticks : UInt32}
    (h : settle period fuel pending timers count = some (rest, later, ticks)) :
    Relation.ReflTransGen (Settling.Releases period) ⟨pending, timers, count⟩ ⟨rest, later, ticks⟩ ∧
      rest < period := by
  induction fuel generalizing pending timers count with
  | zero => cases h
  | succ fuel ih =>
      rw [settle] at h
      by_cases hdue : period ≤ pending
      · rw [if_pos hdue] at h
        obtain ⟨hturns, hrest⟩ := ih h
        exact ⟨.head ⟨hdue, rfl⟩ hturns, hrest⟩
      · rw [if_neg hdue] at h
        cases h
        exact ⟨.refl, Nat.lt_of_not_le hdue⟩

/-- A pacer that gets through its loop when it is handed elapsed time, and then holds less than a period. -/
def ComesToRest (p : Pacer) (elapsed : Nat) (timers : Timers) : Prop :=
  let start : Settling := ⟨p.pending + elapsed, timers, 0⟩
  start.Ends p.period ∧
    ∃ next later ticks, p.elapse elapsed timers = some (next, later, ticks) ∧
      Relation.ReflTransGen (Settling.Releases p.period) start ⟨next.pending, later, ticks⟩ ∧
      next.period = p.period ∧ next.pending < next.period

theorem comesToRest_iff {p : Pacer} {elapsed : Nat} {timers : Timers} :
    p.ComesToRest elapsed timers ↔ 0 < p.period := by
  constructor
  · rintro ⟨-, next, _, _, -, -, hperiod, hrest⟩
    rw [hperiod] at hrest
    exact Nat.zero_lt_of_lt hrest
  · intro hpos
    refine ⟨Settling.ends_of_pos hpos _, _, _, _, elapse_eq hpos elapsed timers, ?_, rfl, Nat.mod_lt _ hpos⟩
    have hsettle := settle_eq hpos (Nat.lt_succ_self ((p.pending + elapsed) / p.period)) timers 0
    rw [UInt32.zero_add] at hsettle
    exact (releases_of_settle hsettle).1

/-- Whatever time a pacer holds, and whatever time it is handed, it comes to rest just if its rate is a
thousand million or less. The sum of the two times may be any number, and the ticks are counted modulo 2^32. -/
theorem comesToRest_iff_rate (rate : UInt32) (pending elapsed : Nat) (timers : Timers) :
    (Pacer.mk (periodOf rate) pending).ComesToRest elapsed timers ↔ rate.toNat ≤ 1000000000 :=
  comesToRest_iff.trans periodOf_pos_iff

/-- A new pacer whose rate is too high goes around its loop forever, even if no time has passed. -/
theorem hurried_never_rests :
    ¬ ∀ (rate : UInt32) (elapsed : Nat) (timers : Timers), (ofRate rate).ComesToRest elapsed timers := by
  intro hrests
  have hperiod : (ofRate 1000000001).period = 0 := by decide
  obtain ⟨hends, -⟩ := hrests 1000000001 0 .zero
  rw [hperiod] at hends
  exact Settling.not_ends_zero _ hends

end Pacer

end Chip8Console
