import Chip8Console.Proofs.Machine.Bounds
import Chip8Console.Proofs.Ram.Overlay

/-!
# The footprint of an instruction

What an instruction may change can be read off it: the bytes at the index that it stores, the registers
that it assigns, and of the other parts of a machine at most two, which only a few instructions have to do
with. All the rest is as it was, whether the instruction faults or not.

The counter is apart. It is behind an instruction before the instruction is carried out, so only jumps,
calls and returns, and skips that are taken, move it any more.
-/

namespace Chip8Console

namespace Instruction

/-- How many bytes an instruction stores from the index on. -/
def stores : Instruction → Nat
  | decimal _ => 3
  | store x => x.val + 1
  | _ => 0

/-- The register that an instruction gives its result to. -/
def target? : Instruction → Option Nibble
  | setByte x _ | addByte x _ | random x _ | readDelay x => some x
  | copy x _ | or x _ | and x _ | xor x _ => some x
  | add x _ | sub x _ | shiftRight x _ | subFrom x _ | shiftLeft x _ => some x
  | _ => none

def flags : Instruction → Bool
  | add _ _ | sub _ _ | shiftRight _ _ | subFrom _ _ | shiftLeft _ _ | draw _ _ _ => true
  | _ => false

/-- Whether an instruction may change a register. -/
def assigns (k : Nibble) : Instruction → Bool
  | load x => k ≤ x
  | instruction => instruction.target? == some k || instruction.flags && k == Machine.flag

theorem assigns_of_target {instruction : Instruction} {x : Nibble} (h : instruction.target? = some x) :
    instruction.assigns x := by
  cases instruction with
  | load y => cases h
  | _ => simp [assigns, h]

theorem assigns_of_flags {instruction : Instruction} (h : instruction.flags) :
    instruction.assigns Machine.flag := by
  cases instruction with
  | load y => cases h
  | _ => simp [assigns, h]

def indexes : Instruction → Bool
  | setIndex _ | addIndex _ | glyph _ => true
  | _ => false

def paints : Instruction → Bool
  | clear | draw _ _ _ => true
  | _ => false

def stackless : Instruction → Bool
  | call _ | ret => false
  | _ => true

def timed : Instruction → Bool
  | readDelay _ | setDelay _ | setSound _ => true
  | _ => false

/-- The register with the key that an instruction tests. -/
def tested? : Instruction → Option Nibble
  | skipPressed x | skipReleased x => some x
  | _ => none

def jumps : Instruction → Bool
  | jump _ | call _ | ret | jumpOffset _ => true
  | _ => false

end Instruction

namespace Machine

theorem v_set (m : Machine) (x k : Nibble) (b : UInt8) :
    (m.set x b).v[k] = if x = k then b else m.v[k] :=
  getElem_put_nibble m.v x k b

/-- Whether an instruction passes over the next one. -/
def skips (m : Machine) : Instruction → Bool
  | .skipEqByte x k => m.v[x] == k
  | .skipNeByte x k => m.v[x] != k
  | .skipEq x y => m.v[x] == m.v[y]
  | .skipNe x y => m.v[x] != m.v[y]
  | .skipPressed x => m.holdsKey m.v[x]
  | .skipReleased x => !m.holdsKey m.v[x]
  | _ => false

/-- A machine that is as it was outside the footprint of an instruction. -/
structure Footprint (m : Machine) (instruction : Instruction) (next : Machine) : Prop where
  memory : ∀ k : Fin 4096, ¬ (m.i.toNat ≤ k.val ∧ k.val < m.i.toNat + instruction.stores) →
    next.ram.bytes.get k = m.ram.bytes.get k := by intros; rfl
  loadAt : next.ram.loadAt = m.ram.loadAt := by rfl
  registers : ∀ k, instruction.assigns k = false → next.v[k] = m.v[k] := by intros; rfl
  index : instruction.indexes = false → next.i = m.i := by intros; rfl
  stack : instruction.stackless → next.stack = m.stack := by intros; rfl
  delay : (∀ x, instruction ≠ .setDelay x) → next.timers.delay = m.timers.delay := by intros; rfl
  sound : (∀ x, instruction ≠ .setSound x) → next.timers.sound = m.timers.sound := by intros; rfl
  screen : instruction.paints = false → next.screen = m.screen := by intros; rfl
  stale : instruction.paints = false → next.stale = m.stale := by intros; rfl
  keys : ∀ k, (∀ x, instruction.tested? = some x → Keys.named m.v[x] ≠ k) →
    next.keys.pressed k = m.keys.pressed k := by intros; rfl
  waiting : (∀ x, instruction ≠ .awaitKey x) → next.waiting = m.waiting := by intros; rfl
  rng : (∀ x k, instruction ≠ .random x k) → next.rng = m.rng := by intros; rfl
  consumesKeys : next.consumesKeys = m.consumesKeys := by rfl

namespace Footprint

variable {m : Machine} {instruction : Instruction}

theorem refl (m : Machine) (instruction : Instruction) : m.Footprint instruction m := {}

/-- Within the footprint a register may be assigned on top of what has been done. -/
theorem assign {next : Machine} (h : m.Footprint instruction next) {x : Nibble}
    (hx : instruction.assigns x) (b : UInt8) : m.Footprint instruction (next.set x b) := by
  refine { h with registers := fun k hk => ?_ }
  rw [v_set, if_neg]
  · exact h.registers k hk
  · rintro rfl
    rw [hx] at hk
    cases hk

theorem set {x : Nibble} (h : instruction.target? = some x) (b : UInt8) :
    m.Footprint instruction (m.set x b) :=
  (refl m instruction).assign (Instruction.assigns_of_target h) b

theorem setWithFlag {x : Nibble} (h : instruction.target? = some x) (hflags : instruction.flags)
    (b : UInt8) (flagged : Bool) : m.Footprint instruction (m.setWithFlag x b flagged) :=
  (set h b).assign (Instruction.assigns_of_flags hflags) _

theorem paint (h : instruction.paints) (screen : Screen) :
    m.Footprint instruction { m with screen, stale := true } := by
  have hpaints : ¬ instruction.paints = false := by simp [h]
  exact { screen := fun hnot => absurd hnot hpaints, stale := fun hnot => absurd hnot hpaints }

theorem skipIf (c : Bool) : m.Footprint instruction (m.skipIf c) := by
  rw [skipIf_eq]
  exact {}

/-- A test of a key may pass over the next instruction and let the key go. -/
theorem consume {x : Nibble} (h : instruction.tested? = some x) (c : Bool) :
    m.Footprint instruction ((m.skipIf c).consume m.v[x]) := by
  rw [consume_eq, skipIf_eq]
  refine { keys := fun k hk => ?_ }
  rw [apply_ite fun keys : Keys => keys.pressed k, Keys.pressed_release, decide_eq_true (hk x h),
    Bool.true_and, ite_self]

theorem write {data : List UInt8} {ram : Ram} (h : m.ram.write m.i data = .ok ram)
    (hlength : data.length = instruction.stores) : m.Footprint instruction { m with ram } where
  memory k hk := by
    unfold Ram.write at h
    split at h
    · cases h
      show (Ram.overlay m.ram.bytes m.i.toNat data)[k.val] = m.ram.bytes[k.val]
      rw [Ram.getElem_overlay]
      split
      · rw [List.getElem?_eq_none (by omega), Option.getD_none]
      · rfl
    · cases h
  loadAt := Ram.write_loadAt h

theorem load {x : Nibble} {data : List UInt8} (h : m.ram.read m.i (x.val + 1) = .ok data) :
    m.Footprint (.load x) { m with v := loaded m.v data } where
  registers k hk := by
    have hlength := Ram.length_of_read h
    have hbeyond : x < k := by simpa [Instruction.assigns] using hk
    have hnone : data[k.val]? = none := List.getElem?_eq_none (hlength ▸ hbeyond)
    rw [loaded, getElem_ofFn_nibble, hnone, Option.getD_none]

theorem perform (m : Machine) (pc : UInt16) (instruction : Instruction) :
    m.Footprint instruction (m.perform pc instruction).1 := by
  cases instruction with
  | clear => exact paint rfl _
  | ret =>
      simp only [Machine.perform, pop]
      cases m.stack.pop? with
      | none => exact {}
      | some popped => exact { stack := fun h => absurd h Bool.false_ne_true }
  | jump a => exact {}
  | call a =>
      simp only [Machine.perform, push]
      cases m.stack.push? m.pc with
      | none => exact {}
      | some stack => exact { stack := fun h => absurd h Bool.false_ne_true }
  | skipEqByte x k => exact skipIf _
  | skipNeByte x k => exact skipIf _
  | skipEq x y => exact skipIf _
  | setByte x k => exact set rfl _
  | addByte x k => exact set rfl _
  | copy x y => exact set rfl _
  | or x y => exact set rfl _
  | and x y => exact set rfl _
  | xor x y => exact set rfl _
  | add x y => exact setWithFlag rfl rfl _ _
  | sub x y => exact setWithFlag rfl rfl _ _
  | shiftRight x y => exact setWithFlag rfl rfl _ _
  | subFrom x y => exact setWithFlag rfl rfl _ _
  | shiftLeft x y => exact setWithFlag rfl rfl _ _
  | skipNe x y => exact skipIf _
  | setIndex a => exact { index := fun h => absurd h.symm Bool.false_ne_true }
  | jumpOffset a => exact {}
  | random x k =>
      have hdrawn : m.Footprint (.random x k) { m with rng := m.rng.next.2 } :=
        { rng := fun h => absurd rfl (h x k) }
      exact hdrawn.assign (Instruction.assigns_of_target rfl) _
  | draw x y n =>
      simp only [Machine.perform]
      split
      · exact {}
      · exact (paint rfl _).assign (Instruction.assigns_of_flags rfl) _
  | skipPressed x => exact consume rfl _
  | skipReleased x => exact consume rfl _
  | readDelay x => exact set rfl _
  | awaitKey x => exact { waiting := fun h => absurd rfl (h x) }
  | setDelay x => exact { delay := fun h => absurd rfl (h x) }
  | setSound x => exact { sound := fun h => absurd rfl (h x) }
  | addIndex x => exact { index := fun h => absurd h.symm Bool.false_ne_true }
  | glyph x => exact { index := fun h => absurd h.symm Bool.false_ne_true }
  | decimal x =>
      simp only [Machine.perform]
      split
      · exact {}
      · next hwrite => exact write hwrite rfl
  | store x =>
      simp only [Machine.perform]
      split
      · exact {}
      · next hwrite => exact write hwrite (length_take_registers m.v x)
  | load x =>
      simp only [Machine.perform]
      split
      · exact {}
      · next hread => exact load hread
  | unknown w => exact {}

/-- An instruction that tests no key changes none. -/
theorem keys_eq {next : Machine} (h : m.Footprint instruction next)
    (htested : instruction.tested? = none) : next.keys = m.keys := by
  apply Keys.eq_of_pressed
  intro k
  apply h.keys
  intro x hx
  rw [htested] at hx
  cases hx

theorem step (h : m.upcoming = some instruction) : m.Footprint instruction m.step.1 := by
  rw [step_of_upcoming h]
  by_cases hfault : ∃ f, m.Blocks m.pc instruction f
  · obtain ⟨f, hblocks⟩ := hfault
    rw [exec_of_blocks hblocks]
    exact refl m instruction
  · rw [exec_of_not_blocks fun f hblocks => hfault ⟨f, hblocks⟩]
    exact { Footprint.perform { m with pc := m.pc + 2 } m.pc instruction with }

end Footprint

theorem pc_skipIf (m : Machine) (c : Bool) : (m.skipIf c).pc = if c then m.pc + 2 else m.pc :=
  congrArg Machine.pc (m.skipIf_eq c)

theorem pc_consume (m : Machine) (key : UInt8) : (m.consume key).pc = m.pc := by
  rw [consume_eq]

/-- An instruction that does not jump leaves the counter behind itself, or behind the next instruction. -/
theorem pc_perform (m : Machine) (pc : UInt16) {instruction : Instruction}
    (hjumps : instruction.jumps = false) :
    (m.perform pc instruction).1.pc = if m.skips instruction then m.pc + 2 else m.pc := by
  cases instruction with
  | ret => cases hjumps
  | jump a => cases hjumps
  | call a => cases hjumps
  | jumpOffset a => cases hjumps
  | skipEqByte x k => exact pc_skipIf m _
  | skipNeByte x k => exact pc_skipIf m _
  | skipEq x y => exact pc_skipIf m _
  | skipNe x y => exact pc_skipIf m _
  | skipPressed x => exact (pc_consume _ _).trans (pc_skipIf m _)
  | skipReleased x => exact (pc_consume _ _).trans (pc_skipIf m _)
  | draw x y n =>
      simp only [perform]
      split <;> rfl
  | decimal x =>
      simp only [perform]
      split <;> rfl
  | store x =>
      simp only [perform]
      split <;> rfl
  | load x =>
      simp only [perform]
      split <;> rfl
  | _ => rfl

/-- An instruction that does not fault changes nothing outside its footprint, and unless it jumps, the
counter is behind it, or behind the next instruction if that is passed over. A word that is no
instruction moves the counter only. -/
theorem exec_footprint (m : Machine) (instruction : Instruction)
    (hruns : ∀ f, (m.exec instruction).2 ≠ .faulted f) :
    m.Footprint instruction (m.exec instruction).1 ∧
      (instruction.jumps = false →
        (m.exec instruction).1.pc = if m.skips instruction then m.pc + 4 else m.pc + 2) ∧
      ∀ w, instruction = .unknown w → (m.exec instruction).1 = { m with pc := m.pc + 2 } := by
  have hclear : ∀ f, ¬ m.Blocks m.pc instruction f := fun f hblocks =>
    hruns f (congrArg Prod.snd (exec_of_blocks hblocks))
  rw [exec_of_not_blocks hclear]
  refine ⟨?_, fun hjumps => ?_, ?_⟩
  · exact { Footprint.perform { m with pc := m.pc + 2 } m.pc instruction with }
  · rw [pc_perform _ _ hjumps]
    show (if m.skips instruction then m.pc + 2 + 2 else m.pc + 2) = _
    rw [UInt16.add_assoc]
    rfl
  · rintro w rfl
    rfl

/-- A machine about to store four registers into the last four bytes of memory. -/
def brimming : Machine := { holding [0xF3, 0x55] with i := 4092, v := Vector.replicate 16 7 }

theorem brimming_footprint :
    (∀ f, (brimming.exec (.store 3)).2 ≠ .faulted f) ∧
      (brimming.exec (.store 3)).1.ram.bytes.get 4091 = brimming.ram.bytes.get 4091 ∧
      (brimming.exec (.store 3)).1.i = 4092 ∧ (brimming.exec (.store 3)).1.pc = 0x202 := by
  have hruns : ∀ f, (brimming.exec (.store 3)).2 ≠ .faulted f := by
    have hadvanced : (brimming.exec (.store 3)).2 = .advanced := by decide +kernel
    simp [hadvanced]
  obtain ⟨hfootprint, hpc, -⟩ := exec_footprint brimming (.store 3) hruns
  exact ⟨hruns, hfootprint.memory 4091 (by decide), hfootprint.index rfl, hpc rfl⟩

end Machine

end Chip8Console
