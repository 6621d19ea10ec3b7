import Chip8Console.Proofs.Machine.Footprint
import Chip8Console.Proofs.Screen.Toggling

/-!
# Executing a draw

A draw whose rows lie within memory never faults. Which pixels it turns over can be told from the machine
before it: the registers say how far a pixel is from the corner of the sprite, and memory from the index on
holds the rows. Only the screen, the flag and the counter change, and the screen is to be drawn again.

The coordinates are read before the flag is written, so the flag register may hold either of them, or both.
-/

namespace Chip8Console

namespace Machine

/-- Whether a sprite of `n` rows, drawn at the coordinates in two registers, has a lit cell over a pixel. -/
def covers (m : Machine) (x y n : Nibble) (px py : Nat) : Bool :=
  let column := Sprite.offset 64 m.v[x].toNat px
  let row := Sprite.offset 32 m.v[y].toNat py
  decide (column < 8) && decide (row < n.val) &&
    (m.ram.bytes[m.i.toNat + row]?).any fun bits => bits.toNat.testBit (7 - column)

def collides (m : Machine) (x y n : Nibble) (px py : Nat) : Bool :=
  m.screen.pixel px py && m.covers x y n px py

/-- A machine that is as it was but for a sprite drawn on the screen. -/
structure Draws (m : Machine) (x y n : Nibble) (next : Machine) : Prop where
  pixel : ∀ px py, px < 64 → py < 32 →
    next.screen.pixel px py = (m.screen.pixel px py ^^ m.covers x y n px py)
  hit : (∃ px py, px < 64 ∧ py < 32 ∧ m.collides x y n px py) → next.v[flag] = 1
  miss : (∀ px py, px < 64 → py < 32 → m.collides x y n px py = false) → next.v[flag] = 0
  litCount : next.screen.litCount + 2 * Screen.tally (m.collides x y n) =
    m.screen.litCount + Screen.tally (m.covers x y n)
  registers : ∀ k, k ≠ flag → next.v[k] = m.v[k]
  stale : next.stale
  pc : next.pc = m.pc + 2
  /-- The index, memory and all that is not named here are the same. -/
  others : next = { m with v := next.v, screen := next.screen, stale := next.stale, pc := next.pc }

theorem covers_of_read {m : Machine} {n : Nibble} {rows : List UInt8}
    (hread : m.ram.read m.i n.val = .ok rows) (x y : Nibble) :
    Sprite.covers rows m.v[x].toNat m.v[y].toNat = m.covers x y n := by
  funext px py
  rw [Sprite.covers, covers, Ram.getElem?_of_read hread, Bool.and_assoc]
  congr 1
  by_cases hrow : Sprite.offset 32 m.v[y].toNat py < n.val
  · rw [if_pos hrow, decide_eq_true hrow, Bool.true_and]
    rfl
  · rw [if_neg hrow, decide_eq_false hrow, Bool.false_and]
    rfl

/-- What a draw within memory comes to. -/
theorem exec_draw_of_read {m : Machine} {n : Nibble} {rows : List UInt8}
    (hread : m.ram.read m.i n.val = .ok rows) {x y : Nibble} {drawn : Screen × Bool}
    (hdrawn : m.screen.drawSprite m.v[x].toNat m.v[y].toNat rows = drawn) :
    m.exec (.draw x y n) =
      ({ m with pc := m.pc + 2, screen := drawn.1, stale := true }.set flag (if drawn.2 then 1 else 0),
        .advanced) := by
  have hclear : ∀ f, ¬ m.Blocks m.pc (.draw x y n) f := by
    intro f hblocks
    cases hblocks with
    | draw _ _ _ hpast =>
        rw [Ram.read_eq_error_iff.2 ⟨hpast, rfl⟩] at hread
        cases hread
  rw [exec_of_not_blocks hclear, ← hdrawn]
  simp only [perform, hread]

theorem drawSprite_hits_iff {m : Machine} {x y n : Nibble} {rows : List UInt8}
    (hheight : rows.length ≤ 32)
    (hcovers : Sprite.covers rows m.v[x].toNat m.v[y].toNat = m.covers x y n) :
    (m.screen.drawSprite m.v[x].toNat m.v[y].toNat rows).2 ↔
      ∃ px py, px < 64 ∧ py < 32 ∧ m.collides x y n px py := by
  rw [m.screen.drawSprite_hit_iff hheight, hcovers]
  simp only [collides, Bool.and_eq_true]

/-- A draw within memory does what it should, whatever is in the flag register before. -/
theorem exec_draw (m : Machine) (x y n : Nibble) (h : m.i.toNat + n.val ≤ 4096) :
    (m.exec (.draw x y n)).2 = .advanced ∧ m.Draws x y n (m.exec (.draw x y n)).1 := by
  obtain ⟨rows, hread⟩ : ∃ rows, m.ram.read m.i n.val = .ok rows := ⟨_, dif_pos h⟩
  have hheight : rows.length ≤ 32 := by
    rw [Ram.length_of_read hread]
    omega
  have hcovers := covers_of_read hread x y
  have hhits := drawSprite_hits_iff hheight hcovers
  have hpixel := m.screen.pixel_drawSprite hheight m.v[x].toNat m.v[y].toNat
  have hlitCount := m.screen.litCount_drawSprite hheight m.v[x].toNat m.v[y].toNat
  rw [hcovers] at hpixel hlitCount
  generalize hdrawn : m.screen.drawSprite m.v[x].toNat m.v[y].toNat rows = drawn at hhits hpixel hlitCount
  rw [exec_draw_of_read hread hdrawn]
  exact ⟨rfl, {
    pixel := fun px py _ _ => hpixel px py
    hit := fun hcollides => by
      rw [v_set, if_pos rfl, if_pos (hhits.2 hcollides)]
    miss := fun hclear => by
      have hmiss : ¬ drawn.2 := fun hhit => by
        obtain ⟨px, py, hpx, hpy, hcollides⟩ := hhits.1 hhit
        rw [hclear px py hpx hpy] at hcollides
        cases hcollides
      rw [v_set, if_pos rfl, if_neg hmiss]
    litCount := hlitCount
    registers := fun k hk => by
      rw [v_set, if_neg (Ne.symm hk)]
    stale := rfl
    pc := rfl
    others := rfl }⟩

/-- A machine about to draw over the right lower corner of the screen, at the coordinates in the flag
register; one of the pixels under the sprite is lit, on the left edge. -/
def smudged : Machine :=
  { holding [0xDF, 0xF2, 0xFF, 0x81] with
    i := 0x202
    v := (Vector.replicate 16 0).set 15 62
    screen := (Screen.blank.toggle 1 30).1 }

theorem smudged_draw :
    smudged.i.toNat + (2 : Nibble).val ≤ 4096 ∧
      (smudged.exec (.draw 15 15 2)).1.v[flag] = 1 ∧
      (smudged.exec (.draw 15 15 2)).1.screen.pixel 1 30 = false ∧
      (smudged.exec (.draw 15 15 2)).1.screen.pixel 5 31 := by
  have hwithin : smudged.i.toNat + (2 : Nibble).val ≤ 4096 := by decide +kernel
  obtain ⟨-, hdraws⟩ := exec_draw smudged 15 15 2 hwithin
  refine ⟨hwithin, hdraws.hit ⟨1, 30, by decide, by decide, by decide +kernel⟩, ?_, ?_⟩
  · rw [hdraws.pixel 1 30 (by decide) (by decide)]
    decide +kernel
  · rw [hdraws.pixel 5 31 (by decide) (by decide)]
    decide +kernel

end Machine

end Chip8Console
