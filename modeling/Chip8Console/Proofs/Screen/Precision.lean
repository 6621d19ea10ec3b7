import Chip8Console.Screen.Precision

/-!
# What rounding keeps

Whole numbers up to the first that needs one bit too many are kept as they are. From there on some are changed,
but rounding never turns the order of two numbers around. It takes a number neither below a multiple of its
last kept bit that it was not below, nor above one that it was not above. Numbers with the same highest bit have
the same last kept bit; between any others there is a power of two, which is a multiple for both.
-/

namespace Chip8Console.Precision

variable {n m u k : Nat}

theorem unit_pos (n : Nat) : 0 < unit n := Nat.pow_pos (by decide)

theorem le_toMultiple (hu : 0 < u) (hle : k * u ≤ n) : k * u ≤ toMultiple n u := by
  have hquotient : k * u ≤ n / u * u := Nat.mul_le_mul_right u ((Nat.le_div_iff_mul_le hu).2 hle)
  rw [toMultiple]
  split
  · exact Nat.le_trans hquotient (Nat.mul_le_mul_right u (Nat.le_succ (n / u)))
  · exact hquotient

theorem toMultiple_le (hu : 0 < u) (hle : n ≤ k * u) : toMultiple n u ≤ k * u := by
  rw [toMultiple]
  split
  · next hup =>
    have hrest : 0 < n % u := by omega
    have hsplit : n / u * u + n % u = n := Nat.div_add_mod' n u
    have hquotient : n / u < k := Nat.lt_of_mul_lt_mul_right (show n / u * u < k * u by omega)
    exact Nat.mul_le_mul_right u hquotient
  · exact Nat.le_trans (Nat.div_mul_le_self n u) hle

/-- To multiples of the same unit. -/
theorem toMultiple_mono (hu : 0 < u) (hle : n ≤ m) : toMultiple n u ≤ toMultiple m u := by
  rcases Nat.lt_or_eq_of_le (Nat.div_le_div_right hle) with hless | hsame
  · have hnext : n ≤ (n / u + 1) * u := Nat.mul_comm u _ ▸ Nat.le_of_lt (Nat.lt_mul_div_succ n hu)
    calc toMultiple n u ≤ (n / u + 1) * u := toMultiple_le hu hnext
      _ ≤ m / u * u := Nat.mul_le_mul_right u hless
      _ ≤ toMultiple m u := le_toMultiple hu (Nat.div_mul_le_self m u)
  · have hrest : n % u ≤ m % u := by
      have hn := Nat.div_add_mod' n u
      have hm := Nat.div_add_mod' m u
      rw [hsame] at hn
      omega
    simp only [toMultiple, hsame]
    split <;> split
    · exact Nat.le_refl _
    · omega
    · exact Nat.mul_le_mul_right u (Nat.le_succ (m / u))
    · exact Nat.le_refl _

theorem nearest_eq_self (hn : n ≤ 9007199254740992) : nearest n = n := by
  rcases Nat.lt_or_eq_of_le hn with hless | rfl
  · have hbits : n.log2 < bits := by
      rcases Nat.eq_zero_or_pos n with rfl | hpos
      · decide
      · exact (Nat.log2_lt (Nat.ne_of_gt hpos)).2 hless
    have hunit : unit n = 1 := by rw [unit, Nat.sub_eq_zero_of_le hbits, Nat.pow_eq, Nat.pow_zero]
    rw [nearest, hunit]
    simp [toMultiple, Nat.mod_one]
  · decide

/-- A power of two that is not below the last kept bit is a multiple of it. -/
theorem exists_mul_unit {j : Nat} (hj : n.log2 + 1 - bits ≤ j) : ∃ k, Nat.pow 2 j = k * unit n :=
  ⟨Nat.pow 2 (j - (n.log2 + 1 - bits)), (Nat.pow_sub_mul_pow 2 hj).symm⟩

theorem nearest_mono (hle : n ≤ m) : nearest n ≤ nearest m := by
  rcases Nat.eq_zero_or_pos n with rfl | hpos
  · exact Nat.zero_le _
  have hn : n ≠ 0 := Nat.ne_of_gt hpos
  have hm : m ≠ 0 := Nat.ne_of_gt (Nat.lt_of_lt_of_le hpos hle)
  have hlog : n.log2 ≤ m.log2 := (Nat.le_log2 hm).2 (Nat.le_trans (Nat.log2_self_le hn) hle)
  rcases Nat.lt_or_eq_of_le hlog with hless | hsame
  · -- The power of two between them is a multiple of either's last kept bit, so neither is rounded past it.
    obtain ⟨j, hj⟩ := exists_mul_unit (n := n) (j := n.log2 + 1) (Nat.sub_le _ _)
    obtain ⟨k, hk⟩ := exists_mul_unit (n := m) (j := m.log2) (by simp only [bits]; omega)
    have hbelow : n ≤ Nat.pow 2 (n.log2 + 1) := Nat.le_of_lt Nat.lt_log2_self
    have habove : Nat.pow 2 m.log2 ≤ m := Nat.log2_self_le hm
    calc nearest n ≤ Nat.pow 2 (n.log2 + 1) := hj ▸ toMultiple_le (unit_pos n) (hj ▸ hbelow)
      _ ≤ Nat.pow 2 m.log2 := Nat.pow_le_pow_right (by decide) hless
      _ ≤ nearest m := hk ▸ le_toMultiple (unit_pos m) (hk ▸ habove)
  · have hunit : unit n = unit m := by rw [unit, unit, hsame]
    rw [nearest, hunit]
    exact toMultiple_mono (unit_pos m) hle

/-! The same on either side of zero. -/

variable {z t : Int}

theorem nearestInt_neg (z : Int) : nearestInt (-z) = -nearestInt z := by
  rw [nearestInt, nearestInt, Int.sign_neg, Int.natAbs_neg, Int.neg_mul]

theorem nearestInt_eq_self (hz : z.natAbs ≤ 9007199254740992) : nearestInt z = z := by
  rw [nearestInt, nearest_eq_self hz, Int.sign_mul_natAbs]

theorem nearestInt_natCast (n : Nat) : nearestInt n = nearest n := by
  rcases Nat.eq_zero_or_pos n with rfl | hpos
  · rfl
  · rw [nearestInt, Int.sign_natCast_of_ne_zero (Nat.ne_of_gt hpos), Int.natAbs_natCast, Int.one_mul]

theorem nearestInt_mono (hle : z ≤ t) : nearestInt z ≤ nearestInt t := by
  obtain ⟨n, rfl | rfl⟩ := Int.eq_nat_or_neg z <;> obtain ⟨m, rfl | rfl⟩ := Int.eq_nat_or_neg t <;>
    simp only [nearestInt_neg, nearestInt_natCast]
  · exact Int.ofNat_le.2 (nearest_mono (Int.ofNat_le.1 hle))
  · obtain ⟨rfl, rfl⟩ : n = 0 ∧ m = 0 := by omega
    exact Int.le_refl 0
  · omega
  · exact Int.neg_le_neg (Int.ofNat_le.2 (nearest_mono (by omega)))

end Chip8Console.Precision
