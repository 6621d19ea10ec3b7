import Chip8Console.Proofs.Machine.Execution
import Chip8Console.Proofs.Machine.Footprint

/-!
# Whatever is done to a machine

A machine that is at hand can be acted on as a host does, be given an instruction that it has not fetched, or
have its stack used. An operation of any of these kinds carries out one instruction or none. If none, it
leaves the random words alone and, unless it loads a program, memory too.
-/

namespace Chip8Console

/-- What can be done to a machine that is at hand: to act on it as a host does, to give it an instruction
that it has not fetched, or to use its stack. -/
inductive Operation where
  | act (action : Action)
  | exec (instruction : Instruction)
  | push (address pc : UInt16)
  | pop (pc : UInt16)

def Operation.loads : Operation → Bool
  | act (.load _) => true
  | _ => false

namespace Machine

def operate (m : Machine) : Operation → Machine
  | .act action => m.act action
  | .exec instruction => (m.exec instruction).1
  | .push address pc => (m.push address pc).toOption.getD m
  | .pop pc => ((m.pop pc).toOption.map Prod.snd).getD m

def through (m : Machine) (operations : List Operation) : Machine := operations.foldl operate m

/-- The instruction that an operation carries out, if it carries one out and that does not fault. -/
def performed? (m : Machine) : Operation → Option Instruction
  | .act .step => m.execution?.map Execution.instruction
  | .exec instruction =>
    match (m.exec instruction).2 with
    | .faulted _ => none
    | _ => some instruction
  | _ => none

def performed (m : Machine) : List Operation → List Instruction
  | [] => []
  | operation :: operations =>
    (m.performed? operation).toList ++ (m.operate operation).performed operations

theorem load_rng (m : Machine) (source : ByteSource) : (m.load source).1.rng = m.rng := by
  unfold load
  split <;> rfl

theorem pressKey_aside (m : Machine) (key : UInt8) :
    (m.pressKey key).rng = m.rng ∧ (m.pressKey key).ram = m.ram := by
  unfold pressKey
  cases m.waiting <;> exact ⟨rfl, rfl⟩

theorem push_aside (m : Machine) (address pc : UInt16) :
    (m.operate (.push address pc)).rng = m.rng ∧ (m.operate (.push address pc)).ram = m.ram := by
  simp only [operate, push]
  cases m.stack.push? address <;> exact ⟨rfl, rfl⟩

theorem pop_aside (m : Machine) (pc : UInt16) :
    (m.operate (.pop pc)).rng = m.rng ∧ (m.operate (.pop pc)).ram = m.ram := by
  simp only [operate, pop]
  cases m.stack.pop? <;> exact ⟨rfl, rfl⟩

/-- An operation carries out an instruction or leaves random words and memory alone. -/
theorem operate_cases (m : Machine) (operation : Operation) :
    (m.performed? operation = none ∧ (m.operate operation).rng = m.rng ∧
        (operation.loads = false → (m.operate operation).ram = m.ram)) ∨
      ∃ instruction, m.performed? operation = some instruction ∧
        m.operate operation = ({ m with pc := m.pc + 2 }.perform m.pc instruction).1 := by
  cases operation with
  | act action =>
      cases action with
      | step =>
          obtain ⟨hnone, hstep⟩ | ⟨w, -, hsome, -, hstep⟩ := m.execution?_cases
          · exact .inl ⟨by rw [performed?, hnone]; rfl, congrArg Machine.rng hstep,
              fun _ => congrArg Machine.ram hstep⟩
          · exact .inr ⟨.ofWord w, by rw [performed?, hsome]; rfl, congrArg Prod.fst hstep⟩
      | press key =>
          obtain ⟨hrng, hram⟩ := m.pressKey_aside key
          exact .inl ⟨rfl, hrng, fun _ => hram⟩
      | load source => exact .inl ⟨rfl, load_rng m source, fun hloads => by cases hloads⟩
      | _ => exact .inl ⟨rfl, rfl, fun _ => rfl⟩
  | exec instruction =>
      by_cases hfault : ∃ f, m.Blocks m.pc instruction f
      · obtain ⟨f, hblocks⟩ := hfault
        have hexec : m.exec instruction = (m, .faulted f) := exec_of_blocks hblocks
        exact .inl ⟨by simp [performed?, hexec], by simp [operate, hexec], fun _ => by simp [operate, hexec]⟩
      · have hclear : ∀ f, ¬ m.Blocks m.pc instruction f := fun f hblocks => hfault ⟨f, hblocks⟩
        refine .inr ⟨instruction, ?_, congrArg Prod.fst (exec_of_not_blocks hclear)⟩
        cases houtcome : (m.exec instruction).2 with
        | faulted f => exact (hclear f (blocks_of_exec houtcome)).elim
        | _ => simp [performed?, houtcome]
  | push address pc =>
      obtain ⟨hrng, hram⟩ := m.push_aside address pc
      exact .inl ⟨rfl, hrng, fun _ => hram⟩
  | pop pc =>
      obtain ⟨hrng, hram⟩ := m.pop_aside pc
      exact .inl ⟨rfl, hrng, fun _ => hram⟩

end Machine

end Chip8Console
