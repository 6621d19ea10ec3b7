import Chip8Console.Proofs.Machine.Fault

/-!
# What is carried out

A step carries out an instruction, unless a key wait is pending or the step faults; then it leaves the
machine alone. Along a run the instructions that are carried out make a list, to which steps alone add, one
instruction at most each.
-/

namespace Chip8Console

/-- Whether an action lets the program go on, instead of starting anew. -/
def Action.carriesOn : Action → Bool
  | step | press _ | release _ | tick | note | abandon => true
  | reset | load _ => false

/-- An instruction that has been carried out, and where it stood. -/
structure Execution where
  pc : UInt16
  instruction : Instruction
  deriving DecidableEq

namespace Machine

/-- What the next step carries out, if it does not fault and no key wait is pending. -/
def execution? (m : Machine) : Option Execution :=
  match m.waiting, m.fetch, m.step.2 with
  | none, .ok w, .advanced | none, .ok w, .parked => some ⟨m.pc, .ofWord w⟩
  | _, _, _ => none

def executions (m : Machine) : List Action → List Execution
  | [] => []
  | .step :: actions => m.execution?.toList ++ m.step.1.executions actions
  | action :: actions => (m.act action).executions actions

/-- A step carries out an instruction or leaves the machine alone. -/
theorem execution?_cases (m : Machine) :
    (m.execution? = none ∧ m.step.1 = m) ∨
      ∃ w, m.fetch = .ok w ∧ m.execution? = some ⟨m.pc, .ofWord w⟩ ∧
        (∀ f, ¬ m.Blocks m.pc (.ofWord w) f) ∧
        m.step = { m with pc := m.pc + 2 }.perform m.pc (.ofWord w) := by
  obtain ⟨hwaiting, hstep⟩ | ⟨f, -, hstep⟩ | ⟨w, hnone, hfetch, hclear, hstep⟩ := m.step_cases
  · obtain ⟨x, hx⟩ := Option.isSome_iff_exists.1 hwaiting
    exact .inl ⟨by simp [execution?, hx], by rw [hstep]⟩
  · have houtcome : m.step.2 = .faulted f := by rw [hstep]
    exact .inl ⟨by simp [execution?, houtcome], by rw [hstep]⟩
  · refine .inr ⟨w, hfetch, ?_, hclear, hstep⟩
    cases houtcome : m.step.2 with
    | advanced => simp [execution?, hnone, hfetch, houtcome]
    | parked => simp [execution?, hnone, hfetch, houtcome]
    | faulted f =>
        rw [hstep] at houtcome
        exact (hclear f ((blocks_of_perform houtcome).congr rfl rfl)).elim

theorem executions_step (m : Machine) (actions : List Action) :
    m.executions (.step :: actions) = m.execution?.toList ++ m.step.1.executions actions := rfl

theorem executions_cons {m : Machine} {action : Action} (hstep : action ≠ .step)
    (actions : List Action) : m.executions (action :: actions) = (m.act action).executions actions := by
  cases action with
  | step => exact absurd rfl hstep
  | _ => rfl

end Machine

end Chip8Console
