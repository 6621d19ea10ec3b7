import Chip8Console.Instruction.Basic

/-!
# The keypad

Sixteen keys, each held down or not. A byte names the key of its low nibble, so every byte names
one.
-/

namespace Chip8Console

structure Keys where
  held : Vector Bool 16
  deriving DecidableEq

namespace Keys

def none : Keys := ⟨Vector.replicate 16 false⟩

/-- The key that a byte names. -/
def named (b : UInt8) : Nibble := ⟨b.toNat % 16, by omega⟩

def pressed (keys : Keys) (k : Nibble) : Bool := keys.held[k]

def press (keys : Keys) (k : Nibble) : Keys := ⟨Nibble.put keys.held k true⟩

def release (keys : Keys) (k : Nibble) : Keys := ⟨Nibble.put keys.held k false⟩

theorem eq_of_pressed {keys other : Keys} (h : ∀ k, keys.pressed k = other.pressed k) :
    keys = other := by
  obtain ⟨held⟩ := keys
  obtain ⟨held'⟩ := other
  exact congrArg Keys.mk (Vector.ext fun k hk => h ⟨k, hk⟩)

theorem pressed_press (keys : Keys) (k j : Nibble) :
    (keys.press k).pressed j = (decide (k = j) || keys.pressed j) := by
  unfold pressed press
  rw [getElem_put_nibble]
  by_cases h : k = j <;> simp [h]

theorem pressed_release (keys : Keys) (k j : Nibble) :
    (keys.release k).pressed j = (decide (k ≠ j) && keys.pressed j) := by
  unfold pressed release
  rw [getElem_put_nibble]
  by_cases h : k = j <;> simp [h]

theorem named_ofNat (k : Nibble) : named (UInt8.ofNat k.val) = k := by
  apply Fin.ext
  have := k.isLt
  simp only [named, UInt8.toNat_ofNat']
  omega

end Keys

/-- What the host hears from its input: keypad keys going down and up, and a wish to stop. -/
inductive KeyEvent where
  | down (key : UInt8)
  | up (key : UInt8)
  | quit
  deriving DecidableEq, Repr

end Chip8Console
