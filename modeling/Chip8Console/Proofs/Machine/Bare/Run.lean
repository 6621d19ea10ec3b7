import Chip8Console.Proofs.Machine.Bare.Perform
import Chip8Console.Proofs.Ram.Reading

/-!
# No run goes out of bounds

A run of the bare machine from its fresh state has an answer, whatever is loaded and whatever is done
in whatever order, and the answer is the bare form of the machine that the same actions reach. The
load address is the one bound that the invariant has to supply: an image of the largest size fits
behind it. All else that can be read off bare cells follows from `Machine.Bounded`.
-/

namespace Chip8Console.Bare

variable (m : Machine)

theorem reset_ofMachine : (ofMachine m).reset = ofMachine m.reset := by
  rw [reset, length_pixels, ← toBytes_blank]
  rfl

theorem load?_ofMachine (h : m.ram.loadAt = 0x200) (source : ByteSource) :
    (ofMachine m).load? source = some (ofMachine (m.load source).1) := by
  cases himage : Image.ofSource source with
  | error e => simp [load?, Machine.load, Ram.load, himage]
  | ok image =>
      have hstart : m.ram.loadAt.toNat = 0x200 := congrArg UInt16.toNat h
      have hlen : m.ram.loadAt.toNat + image.length ≤ 4096 := by
        have := Image.length_le_of_ofSource himage
        simp only [Image.maxBytes] at this
        omega
      have hfill := Cells.fillFrom?_bytes m.ram.bytes (show m.ram.loadAt.toNat ≤ 4096 by omega)
      have hlay := Cells.lay?_toList (Ram.zeroFrom m.ram.bytes m.ram.loadAt.toNat) hlen
      have hfont := Cells.lay?_toList
        (Ram.overlay (Ram.zeroFrom m.ram.bytes m.ram.loadAt.toNat) m.ram.loadAt.toNat image)
        (show 0 + Font.glyphs.length ≤ 4096 by decide)
      have hloaded : (m.load source).1 =
          { m with
            ram := { m.ram with
              bytes := Font.install (Ram.overlay (Ram.zeroFrom m.ram.bytes m.ram.loadAt.toNat)
                m.ram.loadAt.toNat image) } }.reset := by
        simp only [Machine.load, Ram.load, himage, Ram.install, if_pos hlen]
      have hram : (ofMachine m).ram = m.ram.bytes.toList := rfl
      have hloadAt : (ofMachine m).loadAt = m.ram.loadAt := rfl
      rw [hloaded, ← reset_ofMachine, load?, himage]
      simp only [hram, hloadAt, hfill, hlay, hfont, Option.bind_eq_bind, Option.bind_some]
      rfl

theorem act?_ofMachine (h : m.ram.loadAt = 0x200) (action : Action) :
    (ofMachine m).act? action = some (ofMachine (m.act action)) := by
  cases action with
  | step => rw [act?, step?_ofMachine, Option.map_some, Machine.act]
  | press key => exact pressKey?_ofMachine m key
  | release key => exact releaseKey?_ofMachine m key
  | reset => exact congrArg some (reset_ofMachine m)
  | load source => exact load?_ofMachine m h source
  | tick | note | abandon => rfl

theorem fresh?_eq (consumesKeys : Bool) (seed : UInt64) :
    fresh? consumesKeys seed = some (ofMachine (Machine.ofSeed consumesKeys seed)) := by
  have hlay := Cells.lay?_toList (Vector.replicate 4096 0)
    (show 0 + Font.glyphs.length ≤ 4096 by decide)
  rw [Vector.toList_replicate] at hlay
  rw [fresh?, hlay, ← toBytes_blank]
  rfl

/-- A run from a fresh machine never leaves its bounds. -/
theorem run?_eq (consumesKeys : Bool) (seed : UInt64) (actions : List Action) :
    run? consumesKeys seed actions =
      some (ofMachine ((Machine.ofSeed consumesKeys seed).after actions)) := by
  have hall : ∀ m : Machine, m.Bounded →
      actions.foldlM act? (ofMachine m) = some (ofMachine (m.after actions)) := by
    induction actions with
    | nil => exact fun m _ => rfl
    | cons action actions ih =>
        intro m hm
        rw [List.foldlM_cons, act?_ofMachine m hm.loadAt_eq]
        exact ih (m.act action) (hm.act action)
  rw [run?, fresh?_eq]
  exact hall _ (Machine.bounded_fresh consumesKeys (.ofSeed seed))

/-- What holds of the bare cells of every machine that is reached. -/
structure Sound (b : Bare) : Prop where
  length_ram : b.ram.length = 4096
  length_v : b.v.length = 16
  length_slots : b.slots.length = 16
  length_keys : b.keys.length = 16
  length_pixels : b.pixels.length = 2048
  depth_le : b.depth.toNat ≤ 15
  slot_zero : b.slots[0]? = some 0
  returns : ∀ k a, 1 ≤ k → k ≤ b.depth.toNat → b.slots[k]? = some a →
    2 ≤ a.toNat ∧ a.toNat ≤ 0x1000
  pc_le : b.pc.toNat ≤ 0x10FE
  pixels_bits : ∀ px ∈ b.pixels, px = 0 ∨ px = 1
  waiting_lt : ∀ x, b.waiting = some x → x < 16

theorem sound_ofMachine (h : m.Bounded) : (ofMachine m).Sound where
  length_ram := Vector.length_toList
  length_v := Vector.length_toList
  length_slots := Vector.length_toList
  length_keys := Vector.length_toList
  length_pixels := length_pixels m
  depth_le := by
    have := m.stack.depth.isLt
    rw [toNat_depth]
    omega
  slot_zero := by
    have hzero : m.stack.slots[0] = 0 := h.stack_sane.slot_zero
    simp [ofMachine, hzero]
  returns k a hone hle hslot := by
    have hk : k < 16 := by
      have := m.stack.depth.isLt
      rw [toNat_depth] at hle
      omega
    have hget : m.stack.slots[(⟨k, hk⟩ : Nibble)] = a := by
      simpa [ofMachine, hk] using hslot
    rw [← hget]
    exact h.stack_sane.returns ⟨k, hk⟩ hone (by rwa [toNat_depth] at hle)
  pc_le := h.pc_le
  pixels_bits px hpx := by
    obtain ⟨lit, _, rfl⟩ := List.mem_map.1 hpx
    cases lit
    · exact .inl rfl
    · exact .inr rfl
  waiting_lt x hx := by
    obtain ⟨k, _, rfl⟩ := Option.map_eq_some_iff.1 hx
    exact k.isLt

theorem ofSource_of_load {m : Machine} {source : ByteSource} {e : ImageError}
    (h : (m.load source).2 = .refused e) : Image.ofSource source = .error e := by
  cases himage : Image.ofSource source with
  | error e' =>
      simp only [Machine.load, Ram.load, himage, Loading.refused.injEq] at h
      rw [h]
  | ok image =>
      simp only [Machine.load, Ram.load, himage, Ram.install] at h
      by_cases hfits : m.ram.loadAt.toNat + image.length ≤ 4096
      · simp only [if_pos hfits] at h
        cases h
      · simp only [if_neg hfits] at h
        cases h

/-- Every run from a fresh machine stays in bounds: no operation of it is without an answer, and the
cells it reaches are sound. The one sum that is not bounded by a word is the size of an image too
large to load, and that is the image's own size. -/
theorem run_in_bounds (consumesKeys : Bool) (seed : UInt64) (actions : List Action) :
    let m := (Machine.ofSeed consumesKeys seed).after actions
    run? consumesKeys seed actions = some (ofMachine m) ∧ (ofMachine m).Sound ∧
      ∀ source size max, (m.load source).2 = .refused (.tooLarge size max) →
        size = source.rest.length := by
  intro m
  have hbounded : m.Bounded := (Machine.bounded_fresh consumesKeys (.ofSeed seed)).after actions
  refine ⟨run?_eq consumesKeys seed actions, sound_ofMachine m hbounded, ?_⟩
  intro source size max hload
  exact Image.size_of_tooLarge (ofSource_of_load hload)

end Chip8Console.Bare
