import Chip8Console.Proofs.Machine.Footprint

/-!
# What becomes of a machine's keys

A step presses no key, and it lets one go only where a skip instruction consumes it. What the host does
apart from pressing and releasing keys leaves them alone.
-/

namespace Chip8Console.Machine

/-- Both tests of a key are a skip, one way or the other, that may then let the key go. -/
theorem perform_of_tested (m : Machine) (pc : UInt16) {instruction : Instruction} {x : Nibble}
    (h : instruction.tested? = some x) :
    ∃ c, (m.perform pc instruction).1 = (m.skipIf c).consume m.v[x] := by
  cases instruction with
  | skipPressed y =>
      cases h
      exact ⟨_, rfl⟩
  | skipReleased y =>
      cases h
      exact ⟨_, rfl⟩
  | _ => cases h

/-- A machine that has let go of some keys, and only if it may consume keys. -/
structure Loosens (m next : Machine) : Prop where
  consumesKeys : next.consumesKeys = m.consumesKeys
  pressed : ∀ k, next.keys.pressed k → m.keys.pressed k
  kept : m.consumesKeys = false → next.keys = m.keys

namespace Loosens

variable {m n next : Machine}

theorem of_keys_eq (hsetting : next.consumesKeys = m.consumesKeys) (hkeys : next.keys = m.keys) :
    m.Loosens next := ⟨hsetting, fun _ hk => hkeys ▸ hk, fun _ => hkeys⟩

theorem refl (m : Machine) : m.Loosens m := of_keys_eq rfl rfl

theorem trans (first : m.Loosens n) (second : n.Loosens next) : m.Loosens next := by
  refine ⟨second.consumesKeys.trans first.consumesKeys,
    fun k hk => first.pressed k (second.pressed k hk), fun hkeeps => ?_⟩
  rw [second.kept (first.consumesKeys.trans hkeeps), first.kept hkeeps]

theorem consume (m : Machine) (key : UInt8) : m.Loosens (m.consume key) := by
  rw [consume_eq]
  refine ⟨rfl, fun k hk => ?_, fun hkeeps => ?_⟩
  · dsimp only at hk
    split at hk
    · rw [Keys.pressed_release, Bool.and_eq_true] at hk
      exact hk.2
    · exact hk
  · simp [hkeeps]

theorem skipIf (m : Machine) (c : Bool) : m.Loosens (m.skipIf c) := by
  rw [skipIf_eq]
  exact of_keys_eq rfl rfl

theorem perform (m : Machine) (pc : UInt16) (instruction : Instruction) :
    m.Loosens (m.perform pc instruction).1 := by
  have hfootprint := Footprint.perform m pc instruction
  cases htested : instruction.tested? with
  | none => exact of_keys_eq hfootprint.consumesKeys (hfootprint.keys_eq htested)
  | some x =>
      obtain ⟨c, hperform⟩ := perform_of_tested m pc htested
      rw [hperform]
      exact (skipIf m c).trans (consume _ _)

theorem step (m : Machine) : m.Loosens m.step.1 := by
  rcases step_cases m with ⟨-, hstep⟩ | ⟨f, -, hstep⟩ | ⟨w, -, -, -, hstep⟩
  · rw [hstep]
    exact refl m
  · rw [hstep]
    exact refl m
  · rw [hstep]
    have hfetched : m.Loosens { m with pc := m.pc + 2 } := of_keys_eq rfl rfl
    exact hfetched.trans (perform _ _ _)

end Loosens

theorem pressKey_keys (m : Machine) (key : UInt8) :
    (m.pressKey key).keys = m.keys.press (Keys.named key) ∧
      (m.pressKey key).consumesKeys = m.consumesKeys := by
  cases hwaiting : m.waiting with
  | none =>
      rw [pressKey_of_waiting_eq_none hwaiting]
      exact ⟨rfl, rfl⟩
  | some x =>
      rw [pressKey_of_waiting_eq_some hwaiting]
      exact ⟨rfl, rfl⟩

end Chip8Console.Machine
