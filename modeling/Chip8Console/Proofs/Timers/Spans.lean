import Chip8Console.Proofs.Timers.Pacer
import Mathlib.Algebra.GroupWithZero.Nat

/-!
# Time handed over in spans

A host hands its pacer the time that has passed in spans, long and short ones as they come. Each call releases
the whole periods among what was pending and what is new, and what is left over is pending for the next call.
So no time is lost between two calls, and none is counted twice: after any spans the pacer has released the
whole periods of all the time there was, and holds the rest. How the time was cut into spans cannot be told
from the timers, nor from the ticks taken together.

The ticks of a single call come as a 32-bit word, so they add up as long as no call has to release more than
such a word can count. The timers do not depend on that.
-/

namespace Chip8Console.Pacer

def due (p : Pacer) (span : Nat) : Nat := (p.pending + span) / p.period

def rested (p : Pacer) (span : Nat) : Pacer := { p with pending := (p.pending + span) % p.period }

/-- Hands over one span of time after another. The ticks of each call are kept; there is no result if a call
has none. -/
def elapseAll (p : Pacer) (timers : Timers) : List Nat → Option (Pacer × Timers × List UInt32)
  | [] => some (p, timers, [])
  | span :: spans =>
    (p.elapse span timers).bind fun first =>
      (first.1.elapseAll first.2.1 spans).map fun rest => (rest.1, rest.2.1, first.2.2 :: rest.2.2)

/-- Whether no call has to release more ticks than a 32-bit word can count. -/
def Countable (p : Pacer) : List Nat → Prop
  | [] => True
  | span :: spans => p.due span < 4294967296 ∧ (p.rested span).Countable spans

instance decidableCountable (p : Pacer) (spans : List Nat) : Decidable (p.Countable spans) :=
  match spans with
  | [] => .isTrue trivial
  | span :: spans =>
    have := decidableCountable (p.rested span) spans
    inferInstanceAs (Decidable (p.due span < 4294967296 ∧ (p.rested span).Countable spans))

variable {p : Pacer}

theorem elapse_eq_due (hpos : 0 < p.period) (span : Nat) (timers : Timers) :
    p.elapse span timers =
      some (p.rested span, timers.after (p.due span), UInt32.ofNat (p.due span)) :=
  elapse_eq hpos span timers

theorem rested_zero (hpending : p.pending < p.period) : p.rested 0 = p := by
  unfold rested
  rw [Nat.add_zero, Nat.mod_eq_of_lt hpending]

theorem due_zero (hpending : p.pending < p.period) : p.due 0 = 0 :=
  Nat.div_eq_of_lt hpending

/-- What is left over of one span is there for the next. -/
theorem rested_rested (p : Pacer) (first second : Nat) :
    (p.rested first).rested second = p.rested (first + second) := by
  unfold rested
  rw [Nat.mod_add_mod, Nat.add_assoc]

theorem due_add (hpos : 0 < p.period) (first second : Nat) :
    p.due first + (p.rested first).due second = p.due (first + second) := by
  unfold due
  rw [← Nat.add_assoc]
  exact periods_add hpos (p.pending + first) second

/-- What spans of time come to is what their sum does in a single span. -/
theorem elapseAll_eq (hpos : 0 < p.period) (hpending : p.pending < p.period) (timers : Timers)
    (spans : List Nat) :
    ∃ ticks, p.elapseAll timers spans =
        some (p.rested spans.sum, timers.after (p.due spans.sum), ticks) ∧
      ticks.length = spans.length ∧
      (p.Countable spans → (ticks.map UInt32.toNat).sum = p.due spans.sum) := by
  induction spans generalizing p timers with
  | nil =>
      refine ⟨[], ?_, rfl, fun _ => (due_zero hpending).symm⟩
      rw [List.sum_nil, rested_zero hpending, due_zero hpending]
      rfl
  | cons span spans ih =>
      have hrest : (p.rested span).pending < (p.rested span).period := Nat.mod_lt _ hpos
      obtain ⟨ticks, hrun, hlength, hsum⟩ := ih (p := p.rested span) hpos hrest (timers.after (p.due span))
      refine ⟨UInt32.ofNat (p.due span) :: ticks, ?_, congrArg Nat.succ hlength, ?_⟩
      · rw [elapseAll, elapse_eq_due hpos, Option.bind_some, hrun, Option.map_some, rested_rested,
          ← Timers.after_add, due_add hpos, List.sum_cons]
      · rintro ⟨hfirst, hcountable⟩
        rw [List.map_cons, List.sum_cons, hsum hcountable, UInt32.toNat_ofNat_of_lt' hfirst,
          due_add hpos, List.sum_cons]

theorem rested_ofRate (rate : UInt32) (span : Nat) :
    (ofRate rate).rested span = ⟨periodOf rate, span % periodOf rate⟩ := by
  unfold rested ofRate
  rw [Nat.zero_add]

theorem due_ofRate (rate : UInt32) (span : Nat) : (ofRate rate).due span = span / periodOf rate := by
  unfold due ofRate
  rw [Nat.zero_add]

/-- A new pacer accounts for all the time it is handed, in whatever spans: its ticks are the whole periods of
that time, the rest is pending, and each timer has gone down by the ticks, or to zero. -/
theorem elapseAll_accounts {rate : UInt32} (hrate : rate.toNat ≤ 1000000000) (timers : Timers)
    {spans : List Nat} (hcountable : (ofRate rate).Countable spans) :
    ∃ later ticks,
      (ofRate rate).elapseAll timers spans =
          some (⟨periodOf rate, spans.sum % periodOf rate⟩, later, ticks) ∧
        ticks.length = spans.length ∧
        (ticks.map UInt32.toNat).sum = spans.sum / periodOf rate ∧
        later.delay.toNat = timers.delay.toNat - (ticks.map UInt32.toNat).sum ∧
        later.sound.toNat = timers.sound.toNat - (ticks.map UInt32.toNat).sum ∧
        ∀ others : List Nat, others.sum = spans.sum → (ofRate rate).Countable others →
          ∃ otherTicks,
            (ofRate rate).elapseAll timers others =
                some (⟨periodOf rate, spans.sum % periodOf rate⟩, later, otherTicks) ∧
              (otherTicks.map UInt32.toNat).sum = (ticks.map UInt32.toNat).sum := by
  have hpos : 0 < (ofRate rate).period := periodOf_pos hrate
  have hruns := elapseAll_eq hpos hpos timers
  simp only [rested_ofRate, due_ofRate] at hruns
  obtain ⟨ticks, hrun, hlength, hsum⟩ := hruns spans
  obtain ⟨hdelay, hsound⟩ := timers.toNat_after (spans.sum / periodOf rate)
  rw [← hsum hcountable] at hdelay hsound
  refine ⟨_, ticks, hrun, hlength, hsum hcountable, ?_, ?_, ?_⟩
  · rw [← hsum hcountable]
    exact hdelay
  · rw [← hsum hcountable]
    exact hsound
  · intro others hsame hothers
    obtain ⟨otherTicks, hother, -, hotherSum⟩ := hruns others
    rw [hsame] at hother hotherSum
    exact ⟨otherTicks, hother, (hotherSum hothers).trans (hsum hcountable).symm⟩

/-- Two spans that are too short for a tick, and a long one, at the usual rate. -/
def haltingSpans : List Nat := [10000000, 10000000, 100000000]

theorem haltingSpans_account :
    (60 : UInt32).toNat ≤ 1000000000 ∧ (ofRate 60).Countable haltingSpans ∧
      ∃ ticks, (ofRate 60).elapseAll ⟨10, 5⟩ haltingSpans = some (⟨16666666, 3333338⟩, ⟨3, 0⟩, ticks) ∧
        (ticks.map UInt32.toNat).sum = 7 ∧
        ∃ otherTicks, (ofRate 60).elapseAll ⟨10, 5⟩ [120000000] =
            some (⟨16666666, 3333338⟩, ⟨3, 0⟩, otherTicks) ∧
          (otherTicks.map UInt32.toNat).sum = 7 := by
  have hrate : (60 : UInt32).toNat ≤ 1000000000 := by decide
  have hcountable : (ofRate 60).Countable haltingSpans := by decide
  obtain ⟨later, ticks, hrun, -, hsum, hdelay, hsound, hothers⟩ :=
    elapseAll_accounts hrate ⟨10, 5⟩ hcountable
  obtain ⟨otherTicks, hother, hotherSum⟩ := hothers [120000000] (by decide) (by decide)
  have hseven : (ticks.map UInt32.toNat).sum = 7 := hsum.trans (by decide)
  have hlater : later = ⟨3, 0⟩ := by
    rw [hseven] at hdelay hsound
    obtain ⟨delay, sound⟩ := later
    rw [Timers.mk.injEq, ← UInt8.toNat_inj, ← UInt8.toNat_inj]
    exact ⟨hdelay, hsound⟩
  have hrest : haltingSpans.sum % periodOf 60 = 3333338 := by decide
  rw [hlater, hrest] at hrun hother
  exact ⟨hrate, hcountable, ticks, hrun, hseven, otherTicks, hother, hotherSum.trans hseven⟩

end Chip8Console.Pacer
