import Chip8Console.Proofs.Machine.Operation

/-!
# Who draws random words

A machine's stream of random words is its key and how many words have been drawn. One instruction draws
from it, a word each time, and nothing else that can be done to a machine moves the stream, forth or back.
So the words are dealt out in order, whatever happens in between, and the instructions that draw number
them.
-/

namespace Chip8Console

def Instruction.rolls : Instruction → Bool
  | random _ _ => true
  | _ => false

namespace Machine

variable {m : Machine}

theorem perform_rng (m : Machine) (pc : UInt16) (instruction : Instruction) :
    (m.perform pc instruction).1.rng =
      { m.rng with drawn := m.rng.drawn + [instruction].countP Instruction.rolls } := by
  cases hrolls : instruction.rolls with
  | true =>
      cases instruction with
      | random x k => rfl
      | _ => cases hrolls
  | false =>
      have hother : ∀ x k, instruction ≠ .random x k := by
        rintro x k rfl
        cases hrolls
      rw [(Footprint.perform m pc instruction).rng hother, List.countP_singleton, hrolls]
      rfl

theorem operate_rng (m : Machine) (operation : Operation) :
    (m.operate operation).rng =
      { m.rng with
        drawn := m.rng.drawn + (m.performed? operation).toList.countP Instruction.rolls } := by
  obtain ⟨hnone, hrng, -⟩ | ⟨instruction, hsome, hperform⟩ := m.operate_cases operation
  · rw [hnone, hrng]
    rfl
  · rw [hsome, hperform]
    exact perform_rng _ _ _

/-- What draws a word keeps of its low byte what the mask lets through. -/
theorem getElem_operate_random {operation : Operation} {x : Nibble} {k : UInt8}
    (h : m.performed? operation = some (.random x k)) :
    (m.operate operation).v[x] = (Keystream.word m.rng.key m.rng.drawn).toUInt8 &&& k := by
  obtain ⟨hnone, -⟩ | ⟨instruction, hsome, hperform⟩ := m.operate_cases operation
  · rw [hnone] at h
    cases h
  · rw [hsome] at h
    cases h
    rw [hperform]
    exact (getElem_put_nibble _ x x _).trans (if_pos rfl)

/-! ### A run of operations -/

/-- A run draws as many words as it has drawing instructions. -/
theorem through_rng (m : Machine) (operations : List Operation) :
    (m.through operations).rng =
      { m.rng with drawn := m.rng.drawn + (m.performed operations).countP Instruction.rolls } := by
  induction operations generalizing m with
  | nil => rfl
  | cons operation operations ih =>
      rw [performed, List.countP_append, ← Nat.add_assoc]
      show ((m.operate operation).through operations).rng = _
      rw [ih, operate_rng]

/-- Whatever is done to a machine that is made from a seed, the next instruction to draw a word gets the
one of the seed's stream that the number of those before it tells, and those alone have moved the stream. -/
theorem words_in_order (consumesKeys : Bool) (seed : UInt64) (operations : List Operation) :
    let m := ofSeed consumesKeys seed
    let key := (Keystream.ofSeed seed).key
    let drawn := (m.performed operations).countP Instruction.rolls
    (m.through operations).rng = ⟨key, drawn⟩ ∧
      ∀ operation x k, (m.through operations).performed? operation = some (.random x k) →
        ((m.through operations).operate operation).v[x] =
          (Keystream.word key drawn).toUInt8 &&& k := by
  intro m key drawn
  have hrng : (m.through operations).rng = ⟨key, drawn⟩ := by
    rw [through_rng]
    exact congrArg (Keystream.mk key) (Nat.zero_add drawn)
  refine ⟨hrng, fun operation x k h => ?_⟩
  rw [getElem_operate_random h, hrng]

/-- A draw that is masked away, a fault, a step over no instruction, a reset and a load. -/
def distractions : List Operation :=
  [.exec (.random 3 0), .exec .ret, .act .step, .act .reset,
    .act (.load ⟨[0x00, 0xE0], 0, fun _ => 1, none, "gone"⟩)]

theorem distractions_draw_one :
    ((ofSeed true 0).through distractions).rng.drawn = 1 ∧
      (((ofSeed true 0).through distractions).operate (.exec (.random 4 0xFF))).v[(4 : Nibble)] =
        214 := by
  have hperformed : (ofSeed true 0).performed distractions = [.random 3 0, .unknown 0] := by
    decide +kernel
  have hnext : ((ofSeed true 0).through distractions).performed? (.exec (.random 4 0xFF)) =
      some (.random 4 0xFF) := rfl
  obtain ⟨hrng, hvalue⟩ := words_in_order true 0 distractions
  rw [hperformed] at hrng hvalue
  exact ⟨congrArg Keystream.drawn hrng, (hvalue _ 4 0xFF hnext).trans (by decide +kernel)⟩

end Machine

end Chip8Console
