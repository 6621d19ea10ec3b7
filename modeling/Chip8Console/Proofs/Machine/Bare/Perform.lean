import Chip8Console.Proofs.Machine.Bare.Cells
import Chip8Console.Proofs.Machine.Bounds

/-!
# Bare instructions in bounds

Each instruction on the bare cells of a machine has its answer, the one that the machine gives. What
is to be shown of each is that its checks come out: the sum of a jump with an offset and the address
of a glyph fit their word, a call that passes the check for a full stack has a slot to write to, and
a return that passes the check for an empty one a level to go down.
-/

namespace Chip8Console.Bare

variable (m : Machine)

theorem toNat_depth : (ofMachine m).depth.toNat = m.stack.depth.val := by
  have := m.stack.depth.isLt
  simp only [ofMachine, UInt8.toNat_ofNat']
  omega

theorem combine?_ofMachine (x y : Nibble) (f : UInt8 → UInt8 → UInt8) :
    (ofMachine m).combine? x.val y.val f = some (ofMachine (m.set x (f m.v[x] m.v[y]))) := by
  simp [combine?]

theorem combineWithFlag?_ofMachine (x y : Nibble) (f : UInt8 → UInt8 → UInt8 × Bool) :
    (ofMachine m).combineWithFlag? x.val y.val f =
      some (ofMachine (m.setWithFlag x (f m.v[x] m.v[y]).1 (f m.v[x] m.v[y]).2)) := by
  simp [combineWithFlag?]

/-- Where an instruction on bare cells and the same instruction on the machine must agree. -/
def Agrees (pc : UInt16) (instruction : Instruction) : Prop :=
  (ofMachine m).perform? pc instruction =
    some (ofMachine (m.perform pc instruction).1, (m.perform pc instruction).2)

theorem agrees_clear (pc : UInt16) : Agrees m pc .clear := by
  unfold Agrees
  rw [perform?, length_pixels, ← toBytes_blank]
  rfl

theorem agrees_ret (pc : UInt16) : Agrees m pc .ret := by
  have hdepth := toNat_depth m
  have hlt := m.stack.depth.isLt
  unfold Agrees
  by_cases hempty : m.stack.depth.val = 0
  · have hzero : (ofMachine m).depth = 0 := UInt8.toNat_inj.1 (hdepth.trans hempty)
    have hpop : m.pop pc = .error (.stackUnderflow pc) := Machine.pop_eq_error_iff.2 ⟨hempty, rfl⟩
    simp [perform?, hzero, Machine.perform, hpop]
  · have hne : (ofMachine m).depth ≠ 0 := by
      intro hzero
      exact hempty (hdepth.symm.trans (congrArg UInt8.toNat hzero))
    have hslot : (ofMachine m).slots[m.stack.depth.val]? = some m.stack.slots[m.stack.depth] := by
      show m.stack.slots.toList[m.stack.depth.val]? = some m.stack.slots[m.stack.depth]
      rw [Vector.getElem?_toList, Vector.getElem?_eq_getElem hlt]
      rfl
    have hminus : minus? m.stack.depth.val 1 = some (m.stack.depth.val - 1) :=
      if_pos (by omega)
    rw [perform?, if_neg hne]
    simp only [hdepth, hslot, hminus, Option.bind_eq_bind, Option.bind_some,
      Machine.perform, Machine.pop, CallStack.pop?, if_neg hempty]
    rfl

theorem agrees_call (pc : UInt16) (a : Address) : Agrees m pc (.call a) := by
  have hdepth := toNat_depth m
  have hlt := m.stack.depth.isLt
  unfold Agrees
  by_cases hroom : m.stack.depth.val < 15
  · have hnot : ¬ 15 ≤ (ofMachine m).depth := by
      rw [UInt8.le_iff_toNat_le, hdepth]
      exact Nat.not_le.2 hroom
    have hput : Cells.put? (ofMachine m).slots (m.stack.depth.val + 1) (ofMachine m).pc =
        some (m.stack.slots.set (m.stack.depth.val + 1) m.pc (Nat.succ_lt_succ hroom)).toList :=
      Cells.put?_toList m.stack.slots (Nat.succ_lt_succ hroom) m.pc
    rw [perform?, if_neg hnot]
    simp only [hdepth, fit?_of_lt 8 (show m.stack.depth.val + 1 < 256 by omega), hput,
      Option.bind_eq_bind, Option.bind_some, Machine.perform, Machine.push, CallStack.push?,
      dif_pos hroom]
    rfl
  · have hfull : m.stack.depth.val = 15 := by omega
    have hle : 15 ≤ (ofMachine m).depth := by
      rw [UInt8.le_iff_toNat_le, hdepth, hfull]
      decide
    have hpush : m.push m.pc pc = .error (.stackOverflow pc) :=
      Machine.push_eq_error_iff.2 ⟨hfull, rfl⟩
    simp [perform?, hle, Machine.perform, hpush]

theorem agrees_draw (pc : UInt16) (x y n : Nibble) : Agrees m pc (.draw x y n) := by
  have hread : (ofMachine m).read? (ofMachine m).i n.val = some (m.ram.read m.i n.val) :=
    read?_ofMachine m m.i n.val
  unfold Agrees
  rw [perform?]
  simp only [get?_ofMachine, hread, Option.bind_eq_bind, Option.bind_some, Machine.perform]
  cases hrows : m.ram.read m.i n.val with
  | error f => rfl
  | ok rows =>
      have hlen : rows.length < 16 := by
        rw [Ram.length_of_read hrows]
        exact n.isLt
      have hdraw : drawSprite? (ofMachine m).pixels m.v[x].toNat m.v[y].toNat rows =
          some ((m.screen.drawSprite m.v[x].toNat m.v[y].toNat rows).1.toBytes,
            (m.screen.drawSprite m.v[x].toNat m.v[y].toNat rows).2) :=
        drawSprite?_toBytes m.screen (UInt8.toNat_lt _) (UInt8.toNat_lt _) hlen
      have hset := set?_flag_ofMachine
        { m with
          screen := (m.screen.drawSprite m.v[x].toNat m.v[y].toNat rows).1
          stale := true }
        (if (m.screen.drawSprite m.v[x].toNat m.v[y].toNat rows).2 then 1 else 0)
      simp only [hdraw, Option.bind_some]
      exact congrArg (Option.bind · fun b => some (b, Outcome.advanced)) hset

theorem agrees_jumpOffset (pc : UInt16) (a : Address) : Agrees m pc (.jumpOffset a) := by
  have ha := a.isLt
  have hv := m.v[(0 : Nibble)].toNat_lt
  have hget : (ofMachine m).get? 0 = some m.v[(0 : Nibble)] := get?_ofMachine m 0
  have hsum : UInt16.ofNat (a.val + m.v[(0 : Nibble)].toNat) = UInt16.ofNat a.val + m.v[(0 : Nibble)].toUInt16 := by
    apply UInt16.toNat_inj.1
    rw [Machine.toNat_jumpOffset, UInt16.toNat_ofNat']
    omega
  unfold Agrees
  rw [perform?, hget]
  simp only [Option.bind_eq_bind, Option.bind_some,
    fit?_of_lt 16 (show a.val + m.v[(0 : Nibble)].toNat < 65536 by omega), hsum]
  rfl

theorem agrees_decimal (pc : UInt16) (x : Nibble) : Agrees m pc (.decimal x) := by
  have hwrite : (ofMachine m).write? (ofMachine m).i (Decimal.digits m.v[x]) = _ :=
    write?_ofMachine m m.i (Decimal.digits m.v[x])
  unfold Agrees
  rw [perform?, get?_ofMachine]
  simp only [Option.bind_eq_bind, Option.bind_some, Decimal.digits?_eq, hwrite, Machine.perform]
  cases m.ram.write m.i (Decimal.digits m.v[x]) <;> rfl

theorem agrees_store (pc : UInt16) (x : Nibble) : Agrees m pc (.store x) := by
  have hpart : Cells.part? (ofMachine m).v 0 (x.val + 1) = some (m.v.toList.take (x.val + 1)) := by
    have hlen : (ofMachine m).v.length = 16 := Vector.length_toList
    have hfits : 0 + (x.val + 1) ≤ (ofMachine m).v.length := by
      rw [hlen]
      omega
    rw [Cells.part?, if_pos hfits]
    rfl
  have hwrite : (ofMachine m).write? (ofMachine m).i (m.v.toList.take (x.val + 1)) = _ :=
    write?_ofMachine m m.i (m.v.toList.take (x.val + 1))
  unfold Agrees
  rw [perform?]
  simp only [Option.bind_eq_bind, Option.bind_some, hpart, hwrite, Machine.perform]
  cases m.ram.write m.i (m.v.toList.take (x.val + 1)) <;> rfl

theorem agrees_load (pc : UInt16) (x : Nibble) : Agrees m pc (.load x) := by
  have hread : (ofMachine m).read? (ofMachine m).i (x.val + 1) = some (m.ram.read m.i (x.val + 1)) :=
    read?_ofMachine m m.i (x.val + 1)
  unfold Agrees
  rw [perform?, hread]
  simp only [Option.bind_eq_bind, Option.bind_some, Machine.perform]
  cases hdata : m.ram.read m.i (x.val + 1) with
  | error f => rfl
  | ok data =>
      have hlen : data.length ≤ 16 := by
        rw [Ram.length_of_read hdata]
        exact x.isLt
      have hlay : Cells.lay? (ofMachine m).v 0 data = some (Machine.loaded m.v data).toList :=
        Cells.lay?_registers m.v hlen
      simp only [hlay, Option.bind_some]
      rfl

theorem agrees_glyph (pc : UInt16) (x : Nibble) : Agrees m pc (.glyph x) := by
  unfold Agrees
  rw [perform?, get?_ofMachine]
  simp only [Option.bind_eq_bind, Option.bind_some,
    fit?_of_lt 16 (show 5 * (m.v[x].toNat % 16) < 65536 by omega)]
  rfl

theorem agrees_random (pc : UInt16) (x : Nibble) (k : UInt8) : Agrees m pc (.random x k) := by
  exact congrArg (Option.bind · fun b => some (b, Outcome.advanced))
    (set?_ofMachine { m with rng := m.rng.next.2 } x (m.rng.next.1.toUInt8 &&& k))

theorem perform?_ofMachine (pc : UInt16) (instruction : Instruction) :
    Agrees m pc instruction := by
  cases instruction with
  | clear => exact agrees_clear m pc
  | ret => exact agrees_ret m pc
  | call a => exact agrees_call m pc a
  | jumpOffset a => exact agrees_jumpOffset m pc a
  | random x k => exact agrees_random m pc x k
  | draw x y n => exact agrees_draw m pc x y n
  | glyph x => exact agrees_glyph m pc x
  | decimal x => exact agrees_decimal m pc x
  | store x => exact agrees_store m pc x
  | load x => exact agrees_load m pc x
  | jump | setIndex | awaitKey | unknown => rfl
  | readDelay | setDelay | setSound | addIndex =>
      simp only [Agrees, perform?, get?_ofMachine, set?_ofMachine, Option.bind_eq_bind,
        Option.bind_some]
      rfl
  | _ => simp [Agrees, perform?, Machine.perform, combine?_ofMachine, combineWithFlag?_ofMachine]

theorem exec?_ofMachine (instruction : Instruction) :
    (ofMachine m).exec? instruction =
      some (ofMachine (m.exec instruction).1, (m.exec instruction).2) := by
  have hperform : { ofMachine m with pc := (ofMachine m).pc + 2 }.perform? (ofMachine m).pc instruction = _ :=
    perform?_ofMachine { m with pc := m.pc + 2 } m.pc instruction
  rw [exec?, hperform, Machine.exec]
  cases hdone : { m with pc := m.pc + 2 }.perform m.pc instruction with
  | mk next outcome => cases outcome <;> rfl

theorem step?_ofMachine : (ofMachine m).step? = some (ofMachine m.step.1, m.step.2) := by
  have hwaiting : (ofMachine m).waiting.isSome = m.waiting.isSome := by simp [ofMachine]
  rw [step?, hwaiting, Machine.step, fetch?_ofMachine]
  by_cases hw : m.waiting.isSome
  · rw [if_pos hw, if_pos hw]
    rfl
  · rw [if_neg hw, if_neg hw]
    cases m.fetch with
    | error f => rfl
    | ok w => exact exec?_ofMachine m (.ofWord w)

end Chip8Console.Bare
