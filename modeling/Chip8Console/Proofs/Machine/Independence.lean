import Chip8Console.Proofs.Machine.Footprint

/-!
# What an instruction does not look at

The stack, the timers and the keys are the business of a few instructions each. To any other instruction
they may as well be different: it ends in the same way, does the same to all the rest, and leaves them
alone. So a machine can be given other timers before a step that has nothing to do with them, or after it.
-/

namespace Chip8Console

/-- A part of a machine that few instructions have to do with, as it might be. -/
inductive Part where
  | stack (s : CallStack)
  | timers (t : Timers)
  | keys (ks : Keys)

def Instruction.concerns (instruction : Instruction) : Part → Bool
  | .stack _ => !instruction.stackless
  | .timers _ => instruction.timed
  | .keys _ => instruction.tested?.isSome

namespace Machine

def replace (m : Machine) : Part → Machine
  | .stack s => { m with stack := s }
  | .timers t => { m with timers := t }
  | .keys ks => { m with keys := ks }

section Replace

variable (m : Machine) (part : Part)

@[simp] theorem replace_ram : (m.replace part).ram = m.ram := by
  cases part <;> rfl

@[simp] theorem replace_v : (m.replace part).v = m.v := by
  cases part <;> rfl

@[simp] theorem replace_i : (m.replace part).i = m.i := by
  cases part <;> rfl

@[simp] theorem replace_pc : (m.replace part).pc = m.pc := by
  cases part <;> rfl

@[simp] theorem replace_waiting : (m.replace part).waiting = m.waiting := by
  cases part <;> rfl

theorem replace_setPc (pc : UInt16) :
    { m.replace part with pc } = ({ m with pc } : Machine).replace part := by
  cases part <;> rfl

theorem fetch_replace : (m.replace part).fetch = m.fetch := by
  cases part <;> rfl

theorem skipIf_replace (c : Bool) : (m.replace part).skipIf c = (m.skipIf c).replace part := by
  cases part <;> cases c <;> rfl

variable {m}

theorem perform_replace (pc : UInt16) {instruction : Instruction}
    (h : instruction.concerns part = false) :
    (m.replace part).perform pc instruction =
      ((m.perform pc instruction).1.replace part, (m.perform pc instruction).2) := by
  cases instruction with
  | skipEqByte x k => simp only [perform, replace_v, skipIf_replace]
  | skipNeByte x k => simp only [perform, replace_v, skipIf_replace]
  | skipEq x y => simp only [perform, replace_v, skipIf_replace]
  | skipNe x y => simp only [perform, replace_v, skipIf_replace]
  | draw x y n =>
      simp only [perform, replace_ram, replace_i]
      cases m.ram.read m.i n.val <;> cases part <;> rfl
  | decimal x =>
      simp only [perform, replace_ram, replace_i, replace_v]
      cases m.ram.write m.i (Decimal.digits m.v[x]) <;> cases part <;> rfl
  | store x =>
      simp only [perform, replace_ram, replace_i, replace_v]
      cases m.ram.write m.i (m.v.toList.take (x.val + 1)) <;> cases part <;> rfl
  | load x =>
      simp only [perform, replace_ram, replace_i]
      cases m.ram.read m.i (x.val + 1) <;> cases part <;> rfl
  -- What has to do with one of the parts may still be given another of the two others.
  | ret =>
      cases part with
      | stack s => cases h
      | _ =>
          simp only [perform, pop, replace]
          cases m.stack.pop? <;> rfl
  | call a =>
      cases part with
      | stack s => cases h
      | _ =>
          simp only [perform, push, replace]
          cases m.stack.push? m.pc <;> rfl
  | readDelay x =>
      cases part with
      | timers t => cases h
      | _ => rfl
  | setDelay x =>
      cases part with
      | timers t => cases h
      | _ => rfl
  | setSound x =>
      cases part with
      | timers t => cases h
      | _ => rfl
  | skipPressed x =>
      cases part with
      | keys ks => cases h
      | _ =>
          simp only [perform, consume_eq, skipIf_eq]
          rfl
  | skipReleased x =>
      cases part with
      | keys ks => cases h
      | _ =>
          simp only [perform, consume_eq, skipIf_eq]
          rfl
  | _ => cases part <;> rfl

theorem exec_replace {instruction : Instruction} (h : instruction.concerns part = false) :
    (m.replace part).exec instruction =
      ((m.exec instruction).1.replace part, (m.exec instruction).2) := by
  have hperform := perform_replace (m := { m with pc := m.pc + 2 }) part m.pc h
  unfold exec
  rw [replace_setPc, replace_pc, hperform]
  generalize { m with pc := m.pc + 2 }.perform m.pc instruction = done
  obtain ⟨next, outcome⟩ := done
  cases outcome with
  | faulted f => exact congrArg (·, Outcome.faulted f) (replace_setPc next part m.pc)
  | advanced => rfl
  | parked => rfl

/-- A step does the same to a machine with another part, unless its instruction has to do with that. -/
theorem step_replace (h : ∀ instruction, m.upcoming = some instruction →
      instruction.concerns part = false) :
    (m.replace part).step = (m.step.1.replace part, m.step.2) := by
  have hwaiting' : (m.replace part).waiting = m.waiting := m.replace_waiting part
  have hfetch' : (m.replace part).fetch = m.fetch := m.fetch_replace part
  cases hwaiting : m.waiting with
  | some x => rw [step_of_waiting hwaiting, step_of_waiting (hwaiting'.trans hwaiting)]
  | none =>
      cases hfetch : m.fetch with
      | error f =>
          rw [step_of_fetch_error hwaiting hfetch,
            step_of_fetch_error (hwaiting'.trans hwaiting) (hfetch'.trans hfetch)]
      | ok w =>
          rw [step_of_fetch hwaiting hfetch,
            step_of_fetch (hwaiting'.trans hwaiting) (hfetch'.trans hfetch)]
          exact exec_replace part (h _ (upcoming_of_fetch hwaiting hfetch))

end Replace

end Machine

end Chip8Console
