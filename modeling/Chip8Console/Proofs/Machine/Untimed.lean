import Chip8Console.Proofs.Machine.Independence

/-!
# Execution apart from the timers

A machine's timers enter a step in three instructions only: one reads the delay timer into a register,
the other two set a timer from a register. Any other instruction does the same whatever the timers
show, and leaves them alone; the two that set a timer do the same to all the rest of the machine. So
two machines that differ in nothing but their timers stay so, step by step, until the delay timer is
read.
-/

namespace Chip8Console

def Instruction.readsDelay : Instruction → Bool
  | readDelay _ => true
  | _ => false

namespace Machine

def withTimers (m : Machine) (timers : Timers) : Machine := { m with timers }

/-- All of a machine but its timers. -/
def still (m : Machine) : Machine := m.withTimers .zero

section WithTimers

variable (m : Machine) (t : Timers)

@[simp] theorem still_withTimers : (m.withTimers t).still = m.still := rfl

@[simp] theorem withTimers_pc : (m.withTimers t).pc = m.pc := rfl

@[simp] theorem withTimers_waiting : (m.withTimers t).waiting = m.waiting := rfl

theorem pressKey_withTimers (key : UInt8) :
    (m.withTimers t).pressKey key = (m.pressKey key).withTimers t := by
  simp only [pressKey, withTimers]
  split <;> rfl

end WithTimers

theorem perform_withTimers (m : Machine) (t : Timers) (pc : UInt16) {instruction : Instruction}
    (h : instruction.timed = false) :
    (m.withTimers t).perform pc instruction =
      ((m.perform pc instruction).1.withTimers t, (m.perform pc instruction).2) :=
  perform_replace (.timers t) pc h

/-- An instruction that does not read the delay timer does the same to all but the timers, whatever
they show. -/
theorem perform_still (m : Machine) (t : Timers) (pc : UInt16) {instruction : Instruction}
    (h : instruction.readsDelay = false) :
    ((m.withTimers t).perform pc instruction).1.still = (m.perform pc instruction).1.still ∧
      ((m.withTimers t).perform pc instruction).2 = (m.perform pc instruction).2 := by
  by_cases htimed : instruction.timed = false
  · rw [perform_withTimers m t pc htimed]
    exact ⟨rfl, rfl⟩
  · cases instruction with
    | readDelay x => cases h
    | setDelay x => exact ⟨rfl, rfl⟩
    | setSound x => exact ⟨rfl, rfl⟩
    | _ => exact absurd rfl htimed

theorem exec_still (m : Machine) (t : Timers) {instruction : Instruction}
    (h : instruction.readsDelay = false) :
    ((m.withTimers t).exec instruction).1.still = (m.exec instruction).1.still ∧
      ((m.withTimers t).exec instruction).2 = (m.exec instruction).2 := by
  have hperform := perform_still { m with pc := m.pc + 2 } t m.pc h
  have hother : { m.withTimers t with pc := (m.withTimers t).pc + 2 } =
      { m with pc := m.pc + 2 }.withTimers t := rfl
  unfold exec
  rw [hother, withTimers_pc]
  generalize ({ m with pc := m.pc + 2 }.withTimers t).perform m.pc instruction = other at hperform
  generalize { m with pc := m.pc + 2 }.perform m.pc instruction = done at hperform
  obtain ⟨next, outcome⟩ := done
  obtain ⟨next', outcome'⟩ := other
  obtain ⟨hstill, rfl⟩ := hperform
  cases outcome' with
  | faulted f => exact ⟨congrArg (fun n : Machine => { n with pc := m.pc }) hstill, rfl⟩
  | advanced => exact ⟨hstill, rfl⟩
  | parked => exact ⟨hstill, rfl⟩

def ReadsDelay (m : Machine) : Prop :=
  ∃ w, m.waiting = none ∧ m.fetch = .ok w ∧ (Instruction.ofWord w).readsDelay

theorem step_still (m : Machine) (t : Timers) (h : ¬ m.ReadsDelay) :
    (m.withTimers t).step.1.still = m.step.1.still ∧ (m.withTimers t).step.2 = m.step.2 := by
  have hfetch_eq : (m.withTimers t).fetch = m.fetch := rfl
  by_cases hw : m.waiting.isSome
  · simp [step, hw]
  · simp only [step, withTimers_waiting, hw, hfetch_eq]
    cases hfetch : m.fetch with
    | error f => exact ⟨rfl, rfl⟩
    | ok w =>
        have hreads : (Instruction.ofWord w).readsDelay = false := by
          rw [← Bool.not_eq_true]
          intro hreads
          exact h ⟨w, by simpa using hw, hfetch, hreads⟩
        exact exec_still m t hreads

/-! ### Machines that differ in nothing but their timers -/

section Still

variable {m n : Machine}

theorem eq_withTimers_of_still (h : m.still = n.still) : n = m.withTimers n.timers := by
  have hback := congrArg (fun k : Machine => k.withTimers n.timers) h
  exact hback.symm

theorem screen_eq_of_still (h : m.still = n.still) : m.screen = n.screen := by
  rw [eq_withTimers_of_still h]
  rfl

theorem stale_eq_of_still (h : m.still = n.still) : m.stale = n.stale := by
  rw [eq_withTimers_of_still h]
  rfl

theorem waiting_eq_of_still (h : m.still = n.still) : m.waiting = n.waiting := by
  rw [eq_withTimers_of_still h]
  rfl

theorem registers_eq_of_still (h : m.still = n.still) : m.v = n.v := by
  rw [eq_withTimers_of_still h]
  rfl

theorem step_congr (h : m.still = n.still) (hreads : ¬ m.ReadsDelay) :
    m.step.1.still = n.step.1.still ∧ m.step.2 = n.step.2 := by
  rw [eq_withTimers_of_still h]
  obtain ⟨hstill, houtcome⟩ := step_still m n.timers hreads
  exact ⟨hstill.symm, houtcome.symm⟩

theorem pressKey_congr (h : m.still = n.still) (key : UInt8) :
    (m.pressKey key).still = (n.pressKey key).still := by
  rw [eq_withTimers_of_still h, pressKey_withTimers]
  rfl

theorem releaseKey_congr (h : m.still = n.still) (key : UInt8) :
    (m.releaseKey key).still = (n.releaseKey key).still := by
  rw [eq_withTimers_of_still h]
  rfl

theorem noted_congr (h : m.still = n.still) : m.noted.still = n.noted.still := by
  rw [eq_withTimers_of_still h]
  rfl

theorem abandonWait_congr (h : m.still = n.still) :
    m.abandonWait.still = n.abandonWait.still := by
  rw [eq_withTimers_of_still h]
  rfl

end Still

end Machine

end Chip8Console
