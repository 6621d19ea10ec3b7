import Chip8Console.Proofs.Machine.Footprint

/-!
# What paints the screen

Two instructions change the screen, and they mark it as stale. A step that carries out neither of them
leaves the screen and the mark alone, as do the keys and a key wait given up.
-/

namespace Chip8Console

namespace Machine

/-- A machine with the same screen, stale or not as it was. -/
structure SameScreen (m next : Machine) : Prop where
  screen : next.screen = m.screen
  stale : next.stale = m.stale

namespace SameScreen

variable {m n next : Machine}

theorem refl (m : Machine) : m.SameScreen m := ⟨rfl, rfl⟩

theorem trans (first : m.SameScreen n) (second : n.SameScreen next) : m.SameScreen next :=
  ⟨second.screen.trans first.screen, second.stale.trans first.stale⟩

theorem pressKey (m : Machine) (key : UInt8) : m.SameScreen (m.pressKey key) := by
  cases hwaiting : m.waiting with
  | none =>
      rw [pressKey_of_waiting_eq_none hwaiting]
      exact ⟨rfl, rfl⟩
  | some x =>
      rw [pressKey_of_waiting_eq_some hwaiting]
      exact ⟨rfl, rfl⟩

theorem perform (m : Machine) (pc : UInt16) {instruction : Instruction}
    (hpaints : instruction.paints = false) : m.SameScreen (m.perform pc instruction).1 where
  screen := (Footprint.perform m pc instruction).screen hpaints
  stale := (Footprint.perform m pc instruction).stale hpaints

end SameScreen

/-- Whether the next instruction of a machine changes the screen. -/
def Paints (m : Machine) : Prop :=
  ∃ w, m.waiting = none ∧ m.fetch = .ok w ∧ (Instruction.ofWord w).paints

theorem SameScreen.step {m : Machine} (hpaints : ¬ m.Paints) : m.SameScreen m.step.1 := by
  rcases step_cases m with ⟨-, hstep⟩ | ⟨f, -, hstep⟩ | ⟨w, hnone, hfetch, -, hstep⟩
  · rw [hstep]
    exact refl m
  · rw [hstep]
    exact refl m
  · have hother : (Instruction.ofWord w).paints = false :=
      Bool.eq_false_iff.2 fun hw => hpaints ⟨w, hnone, hfetch, hw⟩
    have hfetched : m.SameScreen { m with pc := m.pc + 2 } := ⟨rfl, rfl⟩
    rw [hstep]
    exact hfetched.trans (perform _ _ hother)

/-- An instruction that changes the screen marks it as stale, unless it faults. -/
theorem step_of_paints {m : Machine} (hpaints : m.Paints) :
    (∃ f, m.step = (m, .faulted f)) ∨ m.step.2 = .advanced ∧ m.step.1.stale := by
  obtain ⟨w, hnone, hfetch, hw⟩ := hpaints
  by_cases hfault : ∃ f, m.step.2 = .faulted f
  · obtain ⟨f, hf⟩ := hfault
    exact .inl ⟨f, step_of_faults (faults_of_step hf)⟩
  · right
    have hstep : m.step = { m with pc := m.pc + 2 }.perform m.pc (.ofWord w) := by
      rw [step_of_fetch hnone hfetch]
      apply exec_of_not_blocks
      intro f hblocks
      exact hfault ⟨f, congrArg Prod.snd (step_of_faults (.executing hnone hfetch hblocks))⟩
    rw [hstep] at hfault ⊢
    cases hinstruction : Instruction.ofWord w with
    | clear => exact ⟨rfl, rfl⟩
    | draw x y n =>
        simp only [hinstruction, Machine.perform] at hfault ⊢
        split
        · next f hread => exact absurd ⟨f, by rw [hread]⟩ hfault
        · exact ⟨rfl, rfl⟩
    | _ => simp [hinstruction, Instruction.paints] at hw

end Machine

end Chip8Console
