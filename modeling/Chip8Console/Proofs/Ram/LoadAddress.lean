import Chip8Console.Proofs.Ram.Overlay
import Chip8Console.Proofs.Ram.Reading

/-!
# Loading at any address

An image goes where the load address says. How large it may be does not depend on that: the largest size is
what fits between the usual address, 0x200, and the end of memory. So at that address and below every image
either is in memory afterwards as a whole, or is refused and leaves memory as it was. At every higher address
there are images that are not refused and still run over the end.
-/

namespace Chip8Console.Ram

theorem get_zeroFrom (bytes : Vector UInt8 4096) (start : Nat) (k : Fin 4096) :
    (zeroFrom bytes start).get k = if start ≤ k.val then 0 else bytes.get k :=
  Vector.getElem_ofFn k.isLt

theorem get_overlay (bytes : Vector UInt8 4096) (start : Nat) (data : List UInt8) (k : Fin 4096) :
    (overlay bytes start data).get k =
      if start ≤ k.val then (data[k.val - start]?).getD (bytes.get k) else bytes.get k :=
  getElem_overlay bytes start data k.val k.isLt

/-- A cell of memory after an image and the font have been laid down. -/
theorem get_installed (bytes : Vector UInt8 4096) (start : Nat) (image : List UInt8) (k : Fin 4096) :
    (Font.install (overlay (zeroFrom bytes start) start image)).get k =
      (Font.glyphs[k.val]?).getD
        (if start ≤ k.val then (image[k.val - start]?).getD 0 else bytes.get k) := by
  rw [Font.install, get_overlay, get_overlay, get_zeroFrom, if_pos (Nat.zero_le _), Nat.sub_zero]
  by_cases hk : start ≤ k.val
  · rw [if_pos hk, if_pos hk, if_pos hk]
  · rw [if_neg hk, if_neg hk, if_neg hk]

/-- An image is in memory as a whole from the load address on, with the font over it and nothing above. -/
structure Installed (before : Ram) (image : List UInt8) (after : Ram) : Prop where
  inside : before.loadAt.toNat + image.length ≤ 4096
  loadAt : after.loadAt = before.loadAt
  font : ∀ k : Fin 4096, k.val < 80 → Font.glyphs[k.val]? = some (after.bytes.get k)
  program : ∀ k : Fin 4096, 80 ≤ k.val → before.loadAt.toNat ≤ k.val →
    k.val < before.loadAt.toNat + image.length →
    image[k.val - before.loadAt.toNat]? = some (after.bytes.get k)
  below : ∀ k : Fin 4096, 80 ≤ k.val → k.val < before.loadAt.toNat →
    after.bytes.get k = before.bytes.get k
  above : ∀ k : Fin 4096, 80 ≤ k.val → before.loadAt.toNat + image.length ≤ k.val →
    after.bytes.get k = 0

/-- An image that ends within memory is installed. -/
theorem install_of_inside {ram : Ram} {image : List UInt8}
    (hinside : ram.loadAt.toNat + image.length ≤ 4096) :
    ∃ next, ram.install image = (next, .done image.length) ∧ ram.Installed image next := by
  have hbeyond {k : Nat} (hk : 80 ≤ k) : Font.glyphs[k]? = none :=
    List.getElem?_eq_none (by rwa [Font.length_glyphs])
  refine ⟨_, if_pos hinside, hinside, rfl, ?_, ?_, ?_, ?_⟩
  · intro k hk
    have hglyph : Font.glyphs[k.val]? = some Font.glyphs[k.val] := List.getElem?_eq_getElem hk
    rw [get_installed, hglyph, Option.getD_some]
  · intro k hk hstart hend
    have hlt : k.val - ram.loadAt.toNat < image.length := by omega
    rw [get_installed, hbeyond hk, if_pos hstart, List.getElem?_eq_getElem hlt]
    rfl
  · intro k hk hstart
    rw [get_installed, hbeyond hk, if_neg (by omega), Option.getD_none]
  · intro k hk hend
    rw [get_installed, hbeyond hk, if_pos (by omega), List.getElem?_eq_none (by omega)]
    rfl

/-- Loading installs all that a source holds, or refuses it and leaves memory as it was. -/
def LoadsSafely (ram : Ram) (source : ByteSource) : Prop :=
  (∃ next, ram.load source = (next, .done source.rest.length) ∧ ram.Installed source.rest next) ∨
    ∃ e, ram.load source = (ram, .refused e)

/-- Whether an image is refused: its source breaks too early, or holds too much. -/
def Refuses (source : ByteSource) : Prop :=
  source.failsWithin source.rest.length ∨ Image.maxBytes < source.rest.length

variable {ram : Ram} {source : ByteSource}

theorem load_of_error {e : ImageError} (hsource : Image.ofSource source = .error e) :
    ram.load source = (ram, .refused e) := by
  rw [load, hsource]

theorem load_of_refuses (hrefuses : Refuses source) : ∃ e, ram.load source = (ram, .refused e) := by
  have hsource := Image.ofSource_eq source
  by_cases hfails : source.failsWithin source.rest.length
  · rw [if_pos hfails] at hsource
    exact ⟨_, load_of_error hsource⟩
  · rw [if_neg hfails, if_pos (hrefuses.resolve_left hfails)] at hsource
    exact ⟨_, load_of_error hsource⟩

theorem load_of_not_refuses (hrefuses : ¬ Refuses source) :
    ram.load source = ram.install source.rest := by
  have hsource := Image.ofSource_eq source
  rw [if_neg fun hfails => hrefuses (.inl hfails), if_neg fun hlarge => hrefuses (.inr hlarge)] at hsource
  rw [load, hsource]

theorem load_eq_overrun (hrefuses : ¬ Refuses source)
    (hpast : ¬ ram.loadAt.toNat + source.rest.length ≤ 4096) : (ram.load source).2 = .overrun := by
  rw [load_of_not_refuses hrefuses, install, if_neg hpast]

/-- Loading is safe if the image is refused or ends within memory. -/
theorem loadsSafely_iff :
    ram.LoadsSafely source ↔ Refuses source ∨ ram.loadAt.toNat + source.rest.length ≤ 4096 := by
  constructor
  · intro hsafe
    apply Classical.byContradiction
    intro hneither
    obtain ⟨hrefuses, hpast⟩ := not_or.1 hneither
    obtain ⟨next, -, hinstalled⟩ | ⟨e, hrefused⟩ := hsafe
    · exact hpast hinstalled.inside
    · have hover := load_eq_overrun hrefuses hpast
      rw [hrefused] at hover
      cases hover
  · intro heither
    by_cases hrefuses : Refuses source
    · exact .inr (load_of_refuses hrefuses)
    · left
      rw [load_of_not_refuses hrefuses]
      exact install_of_inside (heither.resolve_left hrefuses)

def largestSource : ByteSource := .ofBytes (List.replicate 3584 0)

theorem not_refuses_largestSource : ¬ Refuses largestSource := by
  rintro (hfails | hlarge)
  · cases hfails
  · have hlength : largestSource.rest.length = Image.maxBytes := List.length_replicate
    omega

/-- Loading is safe unless an image that is not refused would end beyond memory, and then it runs over the
end. So every source is loaded safely just at the usual load address and below. -/
theorem loadsSafely_unless_over (ram : Ram) :
    (∀ source, ram.LoadsSafely source ↔
        Refuses source ∨ ram.loadAt.toNat + source.rest.length ≤ 4096) ∧
      (∀ source, ¬ ram.LoadsSafely source → (ram.load source).2 = .overrun) ∧
      ((∀ source, ram.LoadsSafely source) ↔ ram.loadAt.toNat ≤ 0x200) := by
  refine ⟨fun source => loadsSafely_iff, fun source hunsafe => ?_, fun hsafe => ?_, fun hlow source => ?_⟩
  · rw [loadsSafely_iff, not_or] at hunsafe
    exact load_eq_overrun hunsafe.1 hunsafe.2
  · have hinside := (loadsSafely_iff.1 (hsafe largestSource)).resolve_left not_refuses_largestSource
    have hlength : largestSource.rest.length = 3584 := List.length_replicate
    omega
  · rw [loadsSafely_iff, Refuses, Image.maxBytes]
    omega

def brink : Ram := { fresh with loadAt := 0xFFF }

/-- Two bytes do not fit on the last one, and are not refused. -/
theorem image_over_the_end : ¬ ∀ (ram : Ram) (source : ByteSource), ram.LoadsSafely source := by
  intro hsafe
  obtain hrefuses | hinside := loadsSafely_iff.1 (hsafe brink (.ofBytes [0x00, 0xE0]))
  · revert hrefuses
    unfold Refuses
    decide
  · revert hinside
    decide

end Chip8Console.Ram
