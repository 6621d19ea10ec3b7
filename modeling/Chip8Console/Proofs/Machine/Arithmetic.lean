import Chip8Console.Proofs.Instruction.Fields
import Chip8Console.Proofs.Machine.Footprint

/-!
# Arithmetic on registers

The instructions that add, subtract and shift give a register their result modulo 256, and the flag register
what the result leaves out: a carry, the bit that was shifted out, or that nothing had to be borrowed. Both
operands are read before anything is written and the flag is written last. So the registers may coincide, with
each other or with the flag register; if the result goes to the flag register, the flag is what stays there.

The other instructions that compute a register from registers have no flag, and the flag register is to them
like any other.
-/

namespace Chip8Console.Machine

/-- An instruction is carried out that gives a register a new value and does nothing else. -/
structure Assigns (m : Machine) (x : Nibble) (result : Int) (done : Machine × Outcome) : Prop where
  outcome : done.2 = .advanced
  target : (done.1.v[x].toNat : Int) = result
  registers : ∀ k, k ≠ x → done.1.v[k] = m.v[k]
  others : done.1 = { m with v := done.1.v, pc := m.pc + 2 }

/-- An instruction is carried out that gives a register a new value, then the flag register a flag, and does
nothing else. -/
structure AssignsWithFlag (m : Machine) (x : Nibble) (result flagged : Int) (done : Machine × Outcome) :
    Prop where
  outcome : done.2 = .advanced
  target : x ≠ flag → (done.1.v[x].toNat : Int) = result
  flagged : (done.1.v[flag].toNat : Int) = flagged
  registers : ∀ k, k ≠ x → k ≠ flag → done.1.v[k] = m.v[k]
  others : done.1 = { m with v := done.1.v, pc := m.pc + 2 }

variable {m : Machine} {x y : Nibble}

/-- An instruction that has a register for its result cannot fault. -/
theorem exec_of_target {instruction : Instruction} (h : instruction.target? = some x) :
    m.exec instruction = { m with pc := m.pc + 2 }.perform m.pc instruction := by
  apply exec_of_not_blocks
  intro f hblocks
  cases hblocks <;> cases h

theorem assigns_set {b : UInt8} {result : Int} (hresult : (b.toNat : Int) = result) :
    m.Assigns x result ({ m with pc := m.pc + 2 }.set x b, .advanced) where
  outcome := rfl
  target := by
    rw [v_set, if_pos rfl]
    exact hresult
  registers k hk := by
    rw [v_set, if_neg (Ne.symm hk)]
  others := rfl

theorem assignsWithFlag_setWithFlag {b : UInt8} {c : Bool} {result flagged : Int}
    (hresult : (b.toNat : Int) = result) (hflagged : (if c then 1 else 0) = flagged) :
    m.AssignsWithFlag x result flagged ({ m with pc := m.pc + 2 }.setWithFlag x b c, .advanced) where
  outcome := rfl
  target hx := by
    rw [setWithFlag, v_set, if_neg (Ne.symm hx), v_set, if_pos rfl]
    exact hresult
  flagged := by
    rw [setWithFlag, v_set, if_pos rfl, ← hflagged]
    cases c <;> rfl
  registers k hk hflag := by
    rw [setWithFlag, v_set, if_neg (Ne.symm hflag), v_set, if_neg (Ne.symm hk)]
  others := rfl

/-! ### Results without a flag -/

theorem exec_addByte (m : Machine) (x : Nibble) (k : UInt8) :
    m.Assigns x (((m.v[x].toNat : Int) + k.toNat) % 256) (m.exec (.addByte x k)) := by
  rw [exec_of_target (x := x) rfl]
  apply assigns_set
  show ((m.v[x] + k).toNat : Int) = _
  rw [UInt8.toNat_add]
  omega

theorem exec_copy (m : Machine) (x y : Nibble) :
    m.Assigns x m.v[y].toNat (m.exec (.copy x y)) := by
  rw [exec_of_target (x := x) rfl]
  exact assigns_set rfl

theorem exec_or (m : Machine) (x y : Nibble) :
    m.Assigns x (m.v[x].toNat ||| m.v[y].toNat : Nat) (m.exec (.or x y)) := by
  rw [exec_of_target (x := x) rfl, ← UInt8.toNat_or]
  exact assigns_set rfl

theorem exec_and (m : Machine) (x y : Nibble) :
    m.Assigns x (m.v[x].toNat &&& m.v[y].toNat : Nat) (m.exec (.and x y)) := by
  rw [exec_of_target (x := x) rfl, ← UInt8.toNat_and]
  exact assigns_set rfl

theorem exec_xor (m : Machine) (x y : Nibble) :
    m.Assigns x (m.v[x].toNat ^^^ m.v[y].toNat : Nat) (m.exec (.xor x y)) := by
  rw [exec_of_target (x := x) rfl, ← UInt8.toNat_xor]
  exact assigns_set rfl

/-! ### Results with a flag -/

theorem toNat_sub_mod (a b : UInt8) : ((a - b).toNat : Int) = ((a.toNat : Int) - b.toNat) % 256 := by
  have hb : b.toNat < 256 := b.toNat_lt
  rw [UInt8.toNat_sub]
  omega

theorem exec_add (m : Machine) (x y : Nibble) :
    m.AssignsWithFlag x (((m.v[x].toNat : Int) + m.v[y].toNat) % 256)
      (((m.v[x].toNat : Int) + m.v[y].toNat) / 256) (m.exec (.add x y)) := by
  rw [exec_of_target (x := x) rfl]
  apply assignsWithFlag_setWithFlag
  · show ((m.v[x] + m.v[y]).toNat : Int) = _
    rw [UInt8.toNat_add]
    omega
  · show (if decide (256 ≤ m.v[x].toNat + m.v[y].toNat) then (1 : Int) else 0) = _
    have hx : m.v[x].toNat < 256 := m.v[x].toNat_lt
    have hy : m.v[y].toNat < 256 := m.v[y].toNat_lt
    simp only [decide_eq_true_eq]
    split <;> omega

theorem exec_sub (m : Machine) (x y : Nibble) :
    m.AssignsWithFlag x (((m.v[x].toNat : Int) - m.v[y].toNat) % 256)
      (if m.v[y].toNat ≤ m.v[x].toNat then 1 else 0) (m.exec (.sub x y)) := by
  rw [exec_of_target (x := x) rfl]
  apply assignsWithFlag_setWithFlag (toNat_sub_mod _ _)
  simp only [decide_eq_true_eq, UInt8.le_iff_toNat_le]

theorem exec_subFrom (m : Machine) (x y : Nibble) :
    m.AssignsWithFlag x (((m.v[y].toNat : Int) - m.v[x].toNat) % 256)
      (if m.v[x].toNat ≤ m.v[y].toNat then 1 else 0) (m.exec (.subFrom x y)) := by
  rw [exec_of_target (x := x) rfl]
  apply assignsWithFlag_setWithFlag (toNat_sub_mod _ _)
  simp only [decide_eq_true_eq, UInt8.le_iff_toNat_le]

theorem exec_shiftRight (m : Machine) (x y : Nibble) :
    m.AssignsWithFlag x ((m.v[x].toNat : Int) / 2) ((m.v[x].toNat : Int) % 2)
      (m.exec (.shiftRight x y)) := by
  rw [exec_of_target (x := x) rfl]
  apply assignsWithFlag_setWithFlag
  · show ((m.v[x] >>> 1).toNat : Int) = _
    have hhalf : m.v[x].toNat >>> ((1 : UInt8).toNat % 8) = m.v[x].toNat / 2 := Nat.shiftRight_eq_div_pow _ 1
    rw [UInt8.toNat_shiftRight, hhalf]
    rfl
  · show (if m.v[x] &&& 1 != 0 then (1 : Int) else 0) = _
    have hbit : (m.v[x] &&& 1).toNat = m.v[x].toNat % 2 := Nat.and_one_is_mod _
    simp only [bne_iff_ne, ne_eq, ← UInt8.toNat_inj, hbit, UInt8.toNat_zero]
    split <;> omega

theorem exec_shiftLeft (m : Machine) (x y : Nibble) :
    m.AssignsWithFlag x (2 * (m.v[x].toNat : Int) % 256) ((m.v[x].toNat : Int) / 128)
      (m.exec (.shiftLeft x y)) := by
  rw [exec_of_target (x := x) rfl]
  apply assignsWithFlag_setWithFlag
  · show ((m.v[x] <<< 1).toNat : Int) = _
    have hdouble : m.v[x].toNat <<< ((1 : UInt8).toNat % 8) = m.v[x].toNat * 2 := Nat.shiftLeft_eq _ 1
    rw [UInt8.toNat_shiftLeft, hdouble]
    omega
  · show (if m.v[x] >>> 7 != 0 then (1 : Int) else 0) = _
    have hx : m.v[x].toNat < 256 := m.v[x].toNat_lt
    have hhigh : (m.v[x] >>> 7).toNat = m.v[x].toNat / 128 := Nat.shiftRight_eq_div_pow _ 7
    simp only [bne_iff_ne, ne_eq, ← UInt8.toNat_inj, hhigh, UInt8.toNat_zero]
    split <;> omega

/-- What the words of the classes seven and eight compute, whichever registers they name. -/
theorem exec_arithmetic (m : Machine) (x y high low : Nibble) :
    let a : Int := m.v[x].toNat
    let b : Int := m.v[y].toNat
    m.Assigns x ((a + (16 * high.val + low.val : Nat)) % 256)
        (m.exec (.ofWord (.ofNibbles 7 x high low))) ∧
      m.Assigns x b (m.exec (.ofWord (.ofNibbles 8 x y 0x0))) ∧
      m.Assigns x (m.v[x].toNat ||| m.v[y].toNat : Nat) (m.exec (.ofWord (.ofNibbles 8 x y 0x1))) ∧
      m.Assigns x (m.v[x].toNat &&& m.v[y].toNat : Nat) (m.exec (.ofWord (.ofNibbles 8 x y 0x2))) ∧
      m.Assigns x (m.v[x].toNat ^^^ m.v[y].toNat : Nat) (m.exec (.ofWord (.ofNibbles 8 x y 0x3))) ∧
      m.AssignsWithFlag x ((a + b) % 256) ((a + b) / 256) (m.exec (.ofWord (.ofNibbles 8 x y 0x4))) ∧
      m.AssignsWithFlag x ((a - b) % 256) (if b ≤ a then 1 else 0)
        (m.exec (.ofWord (.ofNibbles 8 x y 0x5))) ∧
      m.AssignsWithFlag x (a / 2) (a % 2) (m.exec (.ofWord (.ofNibbles 8 x y 0x6))) ∧
      m.AssignsWithFlag x ((b - a) % 256) (if a ≤ b then 1 else 0)
        (m.exec (.ofWord (.ofNibbles 8 x y 0x7))) ∧
      m.AssignsWithFlag x (2 * a % 256) (a / 128) (m.exec (.ofWord (.ofNibbles 8 x y 0xE))) := by
  intro a b
  obtain ⟨hcopy, hor, hand, hxor, hadd, hsub, hshiftRight, hsubFrom, hshiftLeft⟩ :=
    Instruction.ofWord_eight x y
  have haddByte := m.exec_addByte x (Word.ofNibbles 7 x high low).byte
  rw [Word.toNat_byte_ofNibbles] at haddByte
  have hsubs := m.exec_sub x y
  have hsubFroms := m.exec_subFrom x y
  simp only [← Int.ofNat_le] at hsubs hsubFroms
  rw [Instruction.ofWord_seven, hcopy, hor, hand, hxor, hadd, hsub, hshiftRight, hsubFrom, hshiftLeft]
  exact ⟨haddByte, m.exec_copy x y, m.exec_or x y, m.exec_and x y, m.exec_xor x y, m.exec_add x y, hsubs,
    m.exec_shiftRight x y, hsubFroms, m.exec_shiftLeft x y⟩

end Chip8Console.Machine
