import Chip8Console.Timers.Pacer

/-!
# What a pacer releases

With a period that is not zero a pacer comes to rest: it holds the remainder of its time by the period
and has released the quotient in ticks. With a period of zero it never does.
-/

namespace Chip8Console

def Timers.after (t : Timers) : Nat → Timers
  | 0 => t
  | n + 1 => t.tick.after n

namespace Timers

theorem toNat_countDown (b : UInt8) : (countDown b).toNat = b.toNat - 1 := by
  unfold countDown
  split
  · next hzero =>
    rw [hzero]
    rfl
  · next hpos =>
    have hle : (1 : UInt8) ≤ b := by
      have hne : b.toNat ≠ 0 := fun hzero => hpos (UInt8.toNat_inj.1 hzero)
      rw [UInt8.le_iff_toNat_le]
      exact Nat.pos_of_ne_zero hne
    exact UInt8.toNat_sub_of_le b 1 hle

/-- Ticks take one off each timer until it is at zero. -/
theorem toNat_after (t : Timers) (n : Nat) :
    (t.after n).delay.toNat = t.delay.toNat - n ∧ (t.after n).sound.toNat = t.sound.toNat - n := by
  induction n generalizing t with
  | zero => exact ⟨rfl, rfl⟩
  | succ n ih =>
      have hdelay : t.tick.delay.toNat = t.delay.toNat - 1 := toNat_countDown t.delay
      have hsound : t.tick.sound.toNat = t.sound.toNat - 1 := toNat_countDown t.sound
      obtain ⟨hdelays, hsounds⟩ := ih t.tick
      rw [after, hdelays, hsounds, hdelay, hsound]
      omega

theorem sound_after (t : Timers) (n : Nat) : (t.after n).sound.toNat = t.sound.toNat - n :=
  (t.toNat_after n).2

theorem after_add (t : Timers) (m n : Nat) : t.after (m + n) = (t.after m).after n := by
  induction m generalizing t with
  | zero => rw [Nat.zero_add, after]
  | succ m ih =>
      rw [Nat.succ_add, after, after]
      exact ih t.tick

theorem sounding_iff (t : Timers) : t.sounding ↔ 0 < t.sound.toNat := by
  rw [sounding, bne_iff_ne, Nat.pos_iff_ne_zero, ne_eq, ne_eq, ← UInt8.toNat_inj]
  rfl

end Timers

theorem periodOf_pos {rate : UInt32} (h : rate.toNat ≤ 1000000000) : 0 < periodOf rate := by
  unfold periodOf
  exact Nat.div_pos (by omega) (by omega)

/-- The whole periods of two spans of time are those of the first, and those of the second together with what
the first leaves over. -/
theorem periods_add {period : Nat} (hpos : 0 < period) (first second : Nat) :
    first / period + (first % period + second) / period = (first + second) / period := by
  have hsplit : first + second = first % period + second + period * (first / period) := by
    have hfirst := Nat.mod_add_div first period
    omega
  rw [hsplit, Nat.add_mul_div_left _ _ hpos, Nat.add_comm]

namespace Pacer

theorem settle_zero (fuel pending : Nat) (timers : Timers) (count : UInt32) :
    settle 0 fuel pending timers count = none := by
  induction fuel generalizing pending timers count with
  | zero => rfl
  | succ fuel ih =>
      rw [settle, if_pos (Nat.zero_le pending)]
      exact ih _ _ _

theorem settle_eq {period : Nat} (hpos : 0 < period) {fuel pending : Nat}
    (hfuel : pending / period < fuel) (timers : Timers) (count : UInt32) :
    settle period fuel pending timers count =
      some (pending % period, timers.after (pending / period),
        count + UInt32.ofNat (pending / period)) := by
  induction fuel generalizing pending timers count with
  | zero => exact absurd hfuel (Nat.not_lt_zero _)
  | succ fuel ih =>
      rw [settle]
      by_cases hdue : period ≤ pending
      · have hquotient : pending / period = (pending - period) / period + 1 :=
          Nat.div_eq_sub_div hpos hdue
        have hcount (n : Nat) : count + 1 + UInt32.ofNat n = count + UInt32.ofNat (n + 1) := by
          rw [UInt32.ofNat_add, UInt32.add_assoc, UInt32.add_comm 1]
          rfl
        rw [if_pos hdue, ih (by omega), hcount, ← hquotient, ← Nat.mod_eq_sub_mod hdue]
        rw [hquotient]
        rfl
      · have hquotient : pending / period = 0 := Nat.div_eq_of_lt (by omega)
        rw [if_neg hdue, hquotient, Nat.mod_eq_of_lt (by omega)]
        simp [Timers.after]

theorem elapse_eq {p : Pacer} (hpos : 0 < p.period) (elapsed : Nat) (timers : Timers) :
    p.elapse elapsed timers =
      some (⟨p.period, (p.pending + elapsed) % p.period⟩,
        timers.after ((p.pending + elapsed) / p.period),
        UInt32.ofNat ((p.pending + elapsed) / p.period)) := by
  simp only [elapse, settle_eq hpos (Nat.lt_succ_self _), Option.map_some, UInt32.zero_add]

theorem elapse_of_period_eq_zero {p : Pacer} (h : p.period = 0) (elapsed : Nat) (timers : Timers) :
    p.elapse elapsed timers = none := by
  simp only [elapse, h, settle_zero, Option.map_none]

end Pacer

end Chip8Console
