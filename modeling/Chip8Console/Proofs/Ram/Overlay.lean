import Chip8Console.Ram.Image

/-!
# Laying bytes over memory

What a cell of memory holds after bytes have been laid over it: the byte laid there, or what it held
before. Writes, fills, program images and the font are all laid over memory this way.
-/

namespace Chip8Console.Ram

theorem getElem_overlay (bytes : Vector UInt8 4096) (start : Nat) (data : List UInt8) (k : Nat)
    (hk : k < 4096) :
    (overlay bytes start data)[k] =
      if start ≤ k then (data[k - start]?).getD bytes[k] else bytes[k] := by
  induction data generalizing bytes start with
  | nil => simp [overlay]
  | cons b data ih =>
      rw [overlay, ih]
      rcases Nat.lt_trichotomy k start with hlt | rfl | hgt
      · rw [if_neg (by omega), if_neg (by omega),
          Vector.getElem_setIfInBounds_ne hk (by omega)]
      · rw [if_neg (by omega), if_pos (Nat.le_refl k), Vector.getElem_setIfInBounds_self,
          Nat.sub_self, List.getElem?_cons_zero, Option.getD_some]
      · have hsub : k - start = k - (start + 1) + 1 := by omega
        rw [if_pos (by omega), if_pos (by omega), hsub, List.getElem?_cons_succ,
          Vector.getElem_setIfInBounds_ne hk (by omega)]

theorem getElem?_overlay (bytes : Vector UInt8 4096) (start : Nat) (data : List UInt8) {k : Nat}
    (hk : k < 4096) :
    (overlay bytes start data)[k]? =
      if start ≤ k then data[k - start]?.or bytes[k]? else bytes[k]? := by
  rw [Vector.getElem?_eq_getElem hk, Vector.getElem?_eq_getElem hk, getElem_overlay]
  split
  · cases data[k - start]? <;> rfl
  · rfl

theorem length_of_read {ram : Ram} {addr : UInt16} {len : Nat} {data : List UInt8}
    (h : ram.read addr len = .ok data) : data.length = len := by
  unfold read at h
  split at h
  · cases h
    exact List.length_ofFn
  · cases h

theorem getElem?_of_read {ram : Ram} {addr : UInt16} {len : Nat} {data : List UInt8}
    (h : ram.read addr len = .ok data) (k : Nat) :
    data[k]? = if k < len then ram.bytes[addr.toNat + k]? else none := by
  unfold read at h
  split at h
  · next hend =>
    cases h
    rw [List.getElem?_ofFn]
    by_cases hk : k < len
    · rw [dif_pos hk, if_pos hk, Vector.getElem?_eq_getElem]
    · rw [dif_neg hk, if_neg hk]
  · cases h

/-- Laying down what has just been read there changes nothing. -/
theorem overlay_of_read {ram : Ram} {addr : UInt16} {len : Nat} {data : List UInt8}
    (h : ram.read addr len = .ok data) : overlay ram.bytes addr.toNat data = ram.bytes := by
  apply Vector.ext
  intro k hk
  rw [getElem_overlay]
  split
  · next hstart =>
    rw [getElem?_of_read h, Nat.add_sub_cancel' hstart]
    split
    · rw [Vector.getElem?_eq_getElem hk, Option.getD_some]
    · rfl
  · rfl

end Chip8Console.Ram
