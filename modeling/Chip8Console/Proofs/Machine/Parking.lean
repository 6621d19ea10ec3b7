import Chip8Console.Proofs.Machine.Footprint

/-!
# How a step parks a machine

Only one instruction makes a machine wait, and it parks the machine at once. So a machine is parked because
it was waiting before or because that instruction has just been carried out, and a machine that has advanced
does not wait.
-/

namespace Chip8Console.Machine

/-- Instructions that do not wait for a key leave the wait as it is, whether they fault or not. -/
theorem perform_of_not_await (m : Machine) (pc : UInt16) {instruction : Instruction}
    (hother : ∀ x, instruction ≠ .awaitKey x) :
    (m.perform pc instruction).1.waiting = m.waiting ∧ (m.perform pc instruction).2 ≠ .parked := by
  refine ⟨(Footprint.perform m pc instruction).waiting hother, ?_⟩
  cases instruction with
  | awaitKey x => exact absurd rfl (hother x)
  | ret =>
      simp only [perform]
      split <;> exact Outcome.noConfusion
  | call a =>
      simp only [perform]
      split <;> exact Outcome.noConfusion
  | draw x y n =>
      simp only [perform]
      split <;> exact Outcome.noConfusion
  | decimal x =>
      simp only [perform]
      split <;> exact Outcome.noConfusion
  | store x =>
      simp only [perform]
      split <;> exact Outcome.noConfusion
  | load x =>
      simp only [perform]
      split <;> exact Outcome.noConfusion
  | _ => exact Outcome.noConfusion

/-- What a step makes of the wait of a machine, and of a machine that does not wait. -/
theorem step_wait_cases (m : Machine) :
    (∃ f, m.waiting = none ∧ m.step = (m, .faulted f)) ∨
    (m.waiting.isSome ∧ m.step = (m, .parked)) ∨
    ∃ w, m.waiting = none ∧ m.fetch = .ok w ∧
      ((∃ x, Instruction.ofWord w = .awaitKey x ∧ m.step.2 = .parked ∧ m.step.1.waiting = some x) ∨
        m.step.2 = .advanced ∧ m.step.1.waiting = none) := by
  rcases step_cases m with ⟨hwaiting, hstep⟩ | ⟨f, hfaults, hstep⟩ | ⟨w, hnone, hfetch, hclear, hstep⟩
  · exact .inr (.inl ⟨hwaiting, hstep⟩)
  · have hnone : m.waiting = none := by cases hfaults <;> assumption
    exact .inl ⟨f, hnone, hstep⟩
  · refine .inr (.inr ⟨w, hnone, hfetch, ?_⟩)
    by_cases hawait : ∃ x, Instruction.ofWord w = .awaitKey x
    · obtain ⟨x, hx⟩ := hawait
      rw [hstep, hx]
      exact .inl ⟨x, rfl, rfl, rfl⟩
    · obtain ⟨hwaiting, hgoesOn⟩ := perform_of_not_await { m with pc := m.pc + 2 } m.pc
        fun x hx => hawait ⟨x, hx⟩
      right
      rw [hstep]
      refine ⟨?_, hwaiting.trans hnone⟩
      cases houtcome : ({ m with pc := m.pc + 2 }.perform m.pc (.ofWord w)).2 with
      | advanced => rfl
      | parked => exact absurd houtcome hgoesOn
      | faulted f =>
          have hblocks : m.Blocks m.pc (.ofWord w) f := (blocks_of_perform houtcome).congr rfl rfl
          exact absurd hblocks (hclear f)

theorem waiting_of_parked {m : Machine} (hparked : m.step.2 = .parked) : m.step.1.waiting.isSome := by
  rcases step_wait_cases m with ⟨f, -, hstep⟩ | ⟨hwaiting, hstep⟩ | ⟨w, -, -, hstep⟩
  · simp [hstep] at hparked
  · rw [hstep]
    exact hwaiting
  · rcases hstep with ⟨x, -, -, hx⟩ | ⟨hadvanced, -⟩
    · rw [hx]
      rfl
    · simp [hadvanced] at hparked

end Chip8Console.Machine
