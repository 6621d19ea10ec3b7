import Chip8Console.Text.Hex

/-!
# Reading hexadecimal text

What has been written in hexadecimal digits is read back as the number it was written from, whatever zeros it
has been filled up with. A number that fits into the width has just as many digits, so the digits of such
numbers tell the width too.
-/

namespace Chip8Console.Hex

variable {letters : Letters} {d n width : Nat} {c : Char}

def valueOf? (letters : Letters) (c : Char) : Option Nat :=
  (List.range 16).find? fun d => digit letters d == c

/-- A number with one more digit behind it. -/
def shift? (letters : Letters) (n : Nat) (c : Char) : Option Nat :=
  (valueOf? letters c).map fun d => 16 * n + d

def read? (letters : Letters) (cs : List Char) : Option Nat := cs.foldlM (shift? letters) 0

theorem valueOf?_digit (hd : d < 16) : valueOf? letters (digit letters d) = some d := by
  have hall : ∀ k : Fin 16, valueOf? letters (digit letters k.val) = some k.val := by
    cases letters <;> decide
  exact hall ⟨d, hd⟩

theorem shift?_digit (hd : d < 16) : shift? letters n (digit letters d) = some (16 * n + d) := by
  rw [shift?, valueOf?_digit hd, Option.map_some]

theorem read?_digits (letters : Letters) (n : Nat) : read? letters (digits letters n) = some n := by
  rw [read?]
  fun_induction digits letters n with
  | case1 n hn => simp [shift?_digit hn]
  | case2 n hn ih =>
    rw [List.foldlM_append, ih]
    simp [shift?_digit (Nat.mod_lt n (by decide)), Nat.div_add_mod]

/-- Zeros in front add nothing. -/
theorem read?_zeros (k : Nat) (cs : List Char) :
    read? letters (List.replicate k '0' ++ cs) = read? letters cs := by
  have hzero : shift? letters 0 '0' = some 0 := shift?_digit (d := 0) (by decide)
  induction k with
  | zero => rfl
  | succ k ih =>
    rw [← ih, read?, List.replicate_succ, List.cons_append, List.foldlM_cons, hzero]
    rfl

theorem read?_padded (letters : Letters) (width n : Nat) :
    read? letters (padded letters width n) = some n := by
  rw [padded, read?_zeros, read?_digits]

theorem exists_digit_of_mem_digits (hc : c ∈ digits letters n) : ∃ d, d < 16 ∧ c = digit letters d := by
  fun_induction digits letters n with
  | case1 n hn => exact ⟨n, hn, List.mem_singleton.1 hc⟩
  | case2 n hn ih =>
    rcases List.mem_append.1 hc with hc | hc
    · exact ih hc
    · exact ⟨n % 16, Nat.mod_lt n (by decide), List.mem_singleton.1 hc⟩

/-- Nothing but digits is written. -/
theorem exists_digit_of_mem_padded (hc : c ∈ padded letters width n) :
    ∃ d, d < 16 ∧ c = digit letters d := by
  rcases List.mem_append.1 hc with hc | hc
  · exact ⟨0, by decide, List.eq_of_mem_replicate hc⟩
  · exact exists_digit_of_mem_digits hc

theorem length_digits_le (hn : n < Nat.pow 16 (width + 1)) :
    (digits letters n).length ≤ width + 1 := by
  induction width generalizing n with
  | zero =>
    rw [digits, if_pos (show n < 16 from hn)]
    exact Nat.le_refl 1
  | succ width ih =>
    rw [digits]
    split
    · exact Nat.succ_le_succ (Nat.zero_le _)
    · have hhigh : n / 16 < Nat.pow 16 (width + 1) := Nat.div_lt_of_lt_mul (Nat.mul_comm .. ▸ hn)
      have hfewer := ih hhigh
      rw [List.length_append, List.length_singleton]
      omega

theorem length_padded (hn : n < Nat.pow 16 (width + 1)) :
    (padded letters (width + 1) n).length = width + 1 := by
  have hdigits : (digits letters n).length ≤ width + 1 := length_digits_le hn
  rw [padded, List.length_append, List.length_replicate]
  omega

end Chip8Console.Hex
