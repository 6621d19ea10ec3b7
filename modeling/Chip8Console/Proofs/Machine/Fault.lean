import Chip8Console.Proofs.Machine.Action

/-!
# When a step faults

A step faults for seven reasons: the instruction word itself lies outside memory, a return finds the
stack empty, a call finds it full, or one of the four instructions that use the bytes at the index
asks for bytes past the end of memory. `Machine.Faults` lists them with their faults, on the state
before the step, with all sums in the natural numbers.

Every check comes before every change, so a faulting step gives back the machine it was given. The
reasons look only at the counter, the index, the stack, memory and the pending wait, and no routine
action touches any of those in a machine whose steps fault: such a machine stays stuck.
-/

namespace Chip8Console

namespace CallStack

theorem push?_eq_none_iff (s : CallStack) (address : UInt16) :
    s.push? address = none ↔ s.depth.val = 15 := by
  have := s.depth.isLt
  unfold push?
  split
  · simp only [reduceCtorEq, false_iff]
    omega
  · simp only [true_iff]
    omega

theorem pop?_eq_none_iff (s : CallStack) : s.pop? = none ↔ s.depth.val = 0 := by
  unfold pop?
  split
  · simp only [true_iff]
    assumption
  · simp only [reduceCtorEq, false_iff]
    assumption

end CallStack

namespace Ram

theorem read_eq_error_iff {ram : Ram} {addr : UInt16} {len : Nat} {f : Fault} :
    ram.read addr len = .error f ↔ 4096 < addr.toNat + len ∧ f = .outOfRange addr.toNat len := by
  unfold read
  split
  · simp only [reduceCtorEq, false_iff]
    omega
  · have hpast : 4096 < addr.toNat + len := by omega
    simp only [Except.error.injEq, hpast, true_and, eq_comm]

theorem word_eq_error_iff {ram : Ram} {addr : UInt16} {f : Fault} :
    ram.word addr = .error f ↔ 4096 < addr.toNat + 2 ∧ f = .outOfRange addr.toNat 2 := by
  unfold word
  split
  · simp only [reduceCtorEq, false_iff]
    omega
  · have hpast : 4096 < addr.toNat + 2 := by omega
    simp only [Except.error.injEq, hpast, true_and, eq_comm]

theorem write_eq_error_iff {ram : Ram} {addr : UInt16} {data : List UInt8} {f : Fault} :
    ram.write addr data = .error f ↔
      4096 < addr.toNat + data.length ∧ f = .outOfRange addr.toNat data.length := by
  unfold write
  split
  · simp only [reduceCtorEq, false_iff]
    omega
  · have hpast : 4096 < addr.toNat + data.length := by omega
    simp only [Except.error.injEq, hpast, true_and, eq_comm]

end Ram

theorem Decimal.length_digits (b : UInt8) : (digits b).length = 3 := rfl

namespace Machine

theorem push_eq_error_iff {m : Machine} {address pc : UInt16} {f : Fault} :
    m.push address pc = .error f ↔ m.stack.depth.val = 15 ∧ f = .stackOverflow pc := by
  rw [← CallStack.push?_eq_none_iff m.stack address]
  unfold push
  cases m.stack.push? address <;> simp [eq_comm]

theorem pop_eq_error_iff {m : Machine} {pc : UInt16} {f : Fault} :
    m.pop pc = .error f ↔ m.stack.depth.val = 0 ∧ f = .stackUnderflow pc := by
  rw [← CallStack.pop?_eq_none_iff m.stack]
  unfold pop
  cases m.stack.pop? <;> simp [eq_comm]

/-- The faults of an instruction at `pc`. -/
inductive Blocks (m : Machine) (pc : UInt16) : Instruction → Fault → Prop where
  | ret (h : m.stack.depth.val = 0) : Blocks m pc .ret (.stackUnderflow pc)
  | call (a : Address) (h : m.stack.depth.val = 15) : Blocks m pc (.call a) (.stackOverflow pc)
  | draw (x y n : Nibble) (h : 4096 < m.i.toNat + n.val) :
      Blocks m pc (.draw x y n) (.outOfRange m.i.toNat n.val)
  | decimal (x : Nibble) (h : 4096 < m.i.toNat + 3) :
      Blocks m pc (.decimal x) (.outOfRange m.i.toNat 3)
  | store (x : Nibble) (h : 4096 < m.i.toNat + (x.val + 1)) :
      Blocks m pc (.store x) (.outOfRange m.i.toNat (x.val + 1))
  | load (x : Nibble) (h : 4096 < m.i.toNat + (x.val + 1)) :
      Blocks m pc (.load x) (.outOfRange m.i.toNat (x.val + 1))

/-- The faults of a step. -/
inductive Faults (m : Machine) : Fault → Prop where
  | fetching (hw : m.waiting = none) (h : 4096 < m.pc.toNat + 2) :
      Faults m (.outOfRange m.pc.toNat 2)
  | executing {w : Word} {f : Fault} (hw : m.waiting = none) (hfetch : m.fetch = .ok w)
      (h : m.Blocks m.pc (.ofWord w) f) : Faults m f

theorem length_take_registers (v : Vector UInt8 16) (x : Nibble) :
    (v.toList.take (x.val + 1)).length = x.val + 1 := by
  have := x.isLt
  rw [List.length_take, Vector.length_toList]
  omega

/-- An instruction that faults has a reason. -/
theorem blocks_of_perform {m : Machine} {pc : UInt16} {instruction : Instruction} {f : Fault}
    (h : (m.perform pc instruction).2 = .faulted f) :
    m.Blocks pc instruction f := by
  cases instruction with
  | ret =>
      simp only [perform] at h
      split at h
      · next g hpop =>
        obtain ⟨hdepth, rfl⟩ := pop_eq_error_iff.1 hpop
        cases h
        exact .ret hdepth
      · cases h
  | call a =>
      simp only [perform] at h
      split at h
      · next g hpush =>
        obtain ⟨hdepth, rfl⟩ := push_eq_error_iff.1 hpush
        cases h
        exact .call a hdepth
      · cases h
  | draw x y n =>
      simp only [perform] at h
      split at h
      · next g hread =>
        obtain ⟨hpast, rfl⟩ := Ram.read_eq_error_iff.1 hread
        cases h
        exact .draw x y n hpast
      · cases h
  | decimal x =>
      simp only [perform] at h
      split at h
      · next g hwrite =>
        obtain ⟨hpast, rfl⟩ := Ram.write_eq_error_iff.1 hwrite
        cases h
        rw [Decimal.length_digits] at hpast ⊢
        exact .decimal x hpast
      · cases h
  | store x =>
      simp only [perform] at h
      split at h
      · next g hwrite =>
        obtain ⟨hpast, rfl⟩ := Ram.write_eq_error_iff.1 hwrite
        cases h
        rw [length_take_registers] at hpast ⊢
        exact .store x hpast
      · cases h
  | load x =>
      simp only [perform] at h
      split at h
      · next g hread =>
        obtain ⟨hpast, rfl⟩ := Ram.read_eq_error_iff.1 hread
        cases h
        exact .load x hpast
      · cases h
  | _ => cases h

/-- An instruction with a reason to fault changes nothing. -/
theorem Blocks.perform_eq {m : Machine} {pc : UInt16} {instruction : Instruction} {f : Fault}
    (h : m.Blocks pc instruction f) : m.perform pc instruction = (m, .faulted f) := by
  cases h with
  | ret h => simp only [perform, pop_eq_error_iff.2 ⟨h, rfl⟩]
  | call a h => simp only [perform, push_eq_error_iff.2 ⟨h, rfl⟩]
  | draw x y n h => simp only [perform, Ram.read_eq_error_iff.2 ⟨h, rfl⟩]
  | decimal x h =>
      have hwrite : m.ram.write m.i (Decimal.digits m.v[x]) = .error (.outOfRange m.i.toNat 3) :=
        Ram.write_eq_error_iff.2 ⟨h, rfl⟩
      simp only [perform, hwrite]
  | store x h =>
      have hlen := length_take_registers m.v x
      have hwrite : m.ram.write m.i (m.v.toList.take (x.val + 1)) =
          .error (.outOfRange m.i.toNat (x.val + 1)) :=
        Ram.write_eq_error_iff.2 ⟨hlen.symm ▸ h, by rw [hlen]⟩
      simp only [perform, hwrite]
  | load x h => simp only [perform, Ram.read_eq_error_iff.2 ⟨h, rfl⟩]

/-- An instruction's faults depend on the index and the stack alone. -/
theorem Blocks.congr {m n : Machine} {pc : UInt16} {instruction : Instruction} {f : Fault}
    (h : m.Blocks pc instruction f) (hi : n.i = m.i) (hstack : n.stack = m.stack) :
    n.Blocks pc instruction f := by
  cases h with
  | ret h => exact .ret (hstack ▸ h)
  | call a h => exact .call a (hstack ▸ h)
  | draw x y k h => exact hi ▸ .draw x y k (hi ▸ h)
  | decimal x h => exact hi ▸ .decimal x (hi ▸ h)
  | store x h => exact hi ▸ .store x (hi ▸ h)
  | load x h => exact hi ▸ .load x (hi ▸ h)

theorem exec_of_blocks {m : Machine} {instruction : Instruction} {f : Fault}
    (h : m.Blocks m.pc instruction f) : m.exec instruction = (m, .faulted f) := by
  have hpast : { m with pc := m.pc + 2 }.Blocks m.pc instruction f := h.congr rfl rfl
  rw [exec, hpast.perform_eq]

theorem blocks_of_exec {m : Machine} {instruction : Instruction} {f : Fault}
    (h : (m.exec instruction).2 = .faulted f) : m.Blocks m.pc instruction f := by
  unfold exec at h
  split at h
  · next next g hperform =>
    cases h
    have hfault := congrArg Prod.snd hperform
    exact (blocks_of_perform hfault).congr rfl rfl
  · next done hdone =>
    exact (hdone _ f (Prod.ext rfl h)).elim

/-- An instruction that does not fault is carried out with the counter behind it. -/
theorem exec_of_not_blocks {m : Machine} {instruction : Instruction}
    (h : ∀ f, ¬ m.Blocks m.pc instruction f) :
    m.exec instruction = { m with pc := m.pc + 2 }.perform m.pc instruction := by
  unfold exec
  split
  · next next f hperform =>
    have hblocks := blocks_of_perform (congrArg Prod.snd hperform)
    exact (h f (hblocks.congr rfl rfl)).elim
  · rfl

theorem step_of_faults {m : Machine} {f : Fault} (h : m.Faults f) : m.step = (m, .faulted f) := by
  cases h with
  | fetching hw h =>
      have hfetch : m.fetch = .error (.outOfRange m.pc.toNat 2) := Ram.word_eq_error_iff.2 ⟨h, rfl⟩
      simp [step, hw, hfetch]
  | executing hw hfetch h => simp [step, hw, hfetch, exec_of_blocks h]

theorem faults_of_step {m : Machine} {f : Fault} (h : m.step.2 = .faulted f) : m.Faults f := by
  unfold step at h
  split at h
  · cases h
  · next hw =>
    have hnone : m.waiting = none := by simpa using hw
    split at h
    · next g hfetch =>
      cases h
      obtain ⟨hpast, rfl⟩ := Ram.word_eq_error_iff.1 hfetch
      exact .fetching hnone hpast
    · next w hfetch => exact .executing hnone hfetch (blocks_of_exec h)

theorem step_faulted_iff {m : Machine} {f : Fault} : m.step.2 = .faulted f ↔ m.Faults f :=
  ⟨faults_of_step, fun h => congrArg Prod.snd (step_of_faults h)⟩

/-- All that a step can do. -/
theorem step_cases (m : Machine) :
    (m.waiting.isSome ∧ m.step = (m, .parked)) ∨
    (∃ f, m.Faults f ∧ m.step = (m, .faulted f)) ∨
    ∃ w, m.waiting = none ∧ m.fetch = .ok w ∧ (∀ f, ¬ m.Blocks m.pc (.ofWord w) f) ∧
      m.step = { m with pc := m.pc + 2 }.perform m.pc (.ofWord w) := by
  by_cases hw : m.waiting.isSome
  · exact .inl ⟨hw, by simp [step, hw]⟩
  · have hnone : m.waiting = none := by simpa using hw
    by_cases hfault : ∃ f, m.Faults f
    · obtain ⟨f, hf⟩ := hfault
      exact .inr (.inl ⟨f, hf, step_of_faults hf⟩)
    · cases hfetch : m.fetch with
      | error f =>
          have hstep : m.step.2 = .faulted f := by simp [step, hnone, hfetch]
          exact (hfault ⟨f, faults_of_step hstep⟩).elim
      | ok w =>
          have hclear : ∀ f, ¬ m.Blocks m.pc (.ofWord w) f := fun f hblocks =>
            hfault ⟨f, .executing hnone hfetch hblocks⟩
          refine .inr (.inr ⟨w, hnone, rfl, hclear, ?_⟩)
          rw [← exec_of_not_blocks hclear]
          simp [step, hnone, hfetch]

/-! ### A stuck machine stays stuck -/

/-- A step's faults depend on no more than this. -/
theorem Faults.congr {m n : Machine} {f : Fault} (h : m.Faults f) (hpc : n.pc = m.pc)
    (hi : n.i = m.i) (hstack : n.stack = m.stack) (hram : n.ram = m.ram)
    (hw : n.waiting = m.waiting) : n.Faults f := by
  cases h with
  | fetching hnone h =>
      rw [← hpc] at h ⊢
      exact .fetching (hw.trans hnone) h
  | executing hnone hfetch h =>
      have hfetch' : n.fetch = m.fetch := by rw [fetch, fetch, hram, hpc]
      refine .executing (hw.trans hnone) (hfetch'.trans hfetch) ?_
      rw [hpc]
      exact h.congr hi hstack

theorem pressKey_of_waiting_eq_none {m : Machine} (h : m.waiting = none) (key : UInt8) :
    m.pressKey key = { m with keys := m.keys.press (Keys.named key) } := by
  simp [pressKey, h]

theorem pressKey_of_waiting_eq_some {m : Machine} {x : Nibble} (h : m.waiting = some x)
    (key : UInt8) :
    m.pressKey key =
      { m with keys := m.keys.press (Keys.named key), waiting := none }.set x
        (UInt8.ofNat (Keys.named key).val) := by
  simp [pressKey, h, set]

theorem Faults.act {m : Machine} {f : Fault} {action : Action} (h : m.Faults f)
    (ha : action.routine) : (m.act action).Faults f := by
  have hnone : m.waiting = none := by cases h <;> assumption
  cases action with
  | step =>
      rw [Machine.act, step_of_faults h]
      exact h
  | press key =>
      rw [Machine.act, pressKey_of_waiting_eq_none hnone]
      exact h.congr rfl rfl rfl rfl rfl
  | release key => exact h.congr rfl rfl rfl rfl rfl
  | tick => exact h.congr rfl rfl rfl rfl rfl
  | note => exact h.congr rfl rfl rfl rfl rfl
  | abandon => cases ha
  | reset => cases ha
  | load source => cases ha

/-- A step faults exactly for the listed reasons. One that does changes nothing, and whatever
routine actions follow, every later step ends in the same fault. -/
theorem faulted_iff_and_stuck (m : Machine) (f : Fault) :
    (m.step.2 = .faulted f ↔ m.Faults f) ∧
      (m.step.2 = .faulted f →
        m.step.1 = m ∧
          ∀ actions : List Action, (∀ action ∈ actions, action.routine) →
            ∀ o ∈ m.outcomes actions, o = .faulted f) := by
  refine ⟨step_faulted_iff, fun h => ⟨?_, fun actions hroutine => ?_⟩⟩
  · rw [step_of_faults (faults_of_step h)]
  · exact outcomes_induction (fun m action haction hm => hm.act (hroutine action haction))
      (fun m hm => step_faulted_iff.2 hm) (faults_of_step h)

/-- A machine about to store all sixteen registers into the last eleven bytes of memory. -/
def overreaching : Machine := { holding [0xFF, 0x55] with i := 4085 }

theorem overreaching_stuck :
    overreaching.step.2 = .faulted (.outOfRange 4085 16) ∧
      overreaching.outcomes [.press 5, .step, .tick, .note, .step] =
        [.faulted (.outOfRange 4085 16), .faulted (.outOfRange 4085 16)] := by
  have hfault : overreaching.step.2 = .faulted (.outOfRange 4085 16) := by decide +kernel
  have hstuck := ((faulted_iff_and_stuck overreaching (.outOfRange 4085 16)).2 hfault).2
    [.press 5, .step, .tick, .note, .step] (by simp [Action.routine])
  refine ⟨hfault, List.eq_replicate_iff.2 ⟨rfl, hstuck⟩⟩

end Machine

end Chip8Console
