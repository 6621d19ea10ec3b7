import Chip8Console.Proofs.Machine.Action
import Chip8Console.Proofs.Ram.LoadAddress

/-!
# Loading a program

Loading is all or nothing. The pieces in which an image is read do not matter, an image that cannot be
read or is too large changes nothing, and any other is in memory afterwards, byte by byte, with nothing
left above it of the image before. The rest of the machine is then as fresh as it is when it is made, but
that it has a screen to show and goes on with its random words.
-/

namespace Chip8Console

/-- What memory holds when an image has been loaded at the usual address. -/
structure Ram.Loaded (before : Ram) (image : List UInt8) (after : Ram) : Prop where
  loadAt : after.loadAt = before.loadAt
  font : ∀ k : Fin 4096, k.val < 80 → Font.glyphs[k.val]? = some (after.bytes.get k)
  low : ∀ k : Fin 4096, 80 ≤ k.val → k.val < 0x200 → after.bytes.get k = before.bytes.get k
  program : ∀ k : Fin 4096, 0x200 ≤ k.val → k.val < 0x200 + image.length →
    image[k.val - 0x200]? = some (after.bytes.get k)
  above : ∀ k : Fin 4096, 0x200 + image.length ≤ k.val → after.bytes.get k = 0

namespace Ram

/-- At the usual address the font and an image do not meet. -/
theorem Installed.loaded {before after : Ram} {image : List UInt8} (h : before.Installed image after)
    (hstart : before.loadAt.toNat = 0x200) : before.Loaded image after where
  loadAt := h.loadAt
  font := h.font
  low k hk hlow := h.below k hk (hstart ▸ hlow)
  program k hk himage := by
    rw [← hstart] at hk himage ⊢
    exact h.program k (by omega) hk himage
  above k hk := h.above k (by omega) (hstart ▸ hk)

theorem install_of_length_le {ram : Ram} (hloadAt : ram.loadAt = 0x200) {image : List UInt8}
    (hlength : image.length ≤ Image.maxBytes) :
    ∃ next, ram.install image = (next, .done image.length) ∧ ram.Loaded image next := by
  have hstart : ram.loadAt.toNat = 0x200 := by
    rw [hloadAt]
    rfl
  have hinside : ram.loadAt.toNat + image.length ≤ 4096 := by
    rw [hstart]
    exact Nat.add_le_add_left hlength 0x200
  obtain ⟨next, hinstall, hinstalled⟩ := install_of_inside hinside
  exact ⟨next, hinstall, hinstalled.loaded hstart⟩

end Ram

namespace Machine

theorem load_of_error {m : Machine} {source : ByteSource} {e : ImageError}
    (hsource : Image.ofSource source = .error e) : m.load source = (m, .refused e) := by
  rw [load, Ram.load_of_error hsource]

theorem load_of_ok {m : Machine} (hloadAt : m.ram.loadAt = 0x200) {source : ByteSource}
    {image : List UInt8} (hsource : Image.ofSource source = .ok image)
    (hlength : image.length ≤ Image.maxBytes) :
    ∃ ram, m.ram.Loaded image ram ∧
      m.load source =
        ({ fresh m.consumesKeys m.rng with ram, stale := true }, .done image.length) := by
  obtain ⟨ram, hinstall, hloaded⟩ := Ram.install_of_length_le hloadAt hlength
  refine ⟨ram, hloaded, ?_⟩
  rw [load, Ram.load, hsource]
  dsimp only
  rw [hinstall]
  rfl

/-- Loading from a source that breaks in its data or right behind them fails, whatever its pieces, and so
does loading more than there is room for. Both leave the machine as it was. Otherwise the data are in
memory, and the machine is fresh but for its random words, its setting and a screen to show. -/
theorem load_exact {m : Machine} (hloadAt : m.ram.loadAt = 0x200) (data : List UInt8)
    (piece : Nat → Nat) (breaksAt : Option Nat) (reason : String) :
    let source : ByteSource := ⟨data, 0, piece, breaksAt, reason⟩
    ((∃ offset, breaksAt = some offset ∧ offset ≤ data.length) →
        m.load source = (m, .refused (.unreadable reason))) ∧
      ((∀ offset, breaksAt = some offset → data.length < offset) → 3584 < data.length →
        m.load source = (m, .refused (.tooLarge data.length 3584))) ∧
      ((∀ offset, breaksAt = some offset → data.length < offset) → data.length ≤ 3584 →
        ∃ ram, m.ram.Loaded data ram ∧
          m.load source =
            ({ fresh m.consumesKeys m.rng with ram, stale := true }, .done data.length)) := by
  intro source
  have hsource := Image.ofSource_eq source
  have hwhole (hsound : ∀ offset, breaksAt = some offset → data.length < offset) :
      source.failsWithin source.rest.length = false := by
    simp only [ByteSource.failsWithin, source, Option.any_eq_false]
    intro offset hbreaks
    have := hsound offset hbreaks
    simpa using this
  refine ⟨?_, fun hsound hlarge => ?_, fun hsound hfits => ?_⟩
  · rintro ⟨offset, rfl, hle⟩
    have hfails : source.failsWithin source.rest.length := by
      simpa [ByteSource.failsWithin, source] using hle
    rw [if_pos hfails] at hsource
    exact load_of_error hsource
  · have hover : Image.maxBytes < source.rest.length := hlarge
    rw [hwhole hsound, if_neg Bool.false_ne_true, if_pos hover] at hsource
    exact load_of_error hsource
  · have hnot : ¬ Image.maxBytes < source.rest.length := Nat.not_lt.2 hfits
    rw [hwhole hsound, if_neg Bool.false_ne_true, if_neg hnot] at hsource
    exact load_of_ok hloadAt hsource hfits

/-- A machine that has a longer program than the one to come. -/
def occupied : Machine := holding [0x12, 0x00, 0x34, 0x56]

/-- A source that hands out a program byte by byte and breaks at an offset. -/
def trickle (offset : Nat) : ByteSource := ⟨[0x00, 0xE0], 0, fun _ => 1, some offset, "gone"⟩

theorem trickle_loads :
    occupied.load (trickle 2) = (occupied, .refused (.unreadable "gone")) ∧
      ∃ ram, occupied.ram.Loaded [0x00, 0xE0] ram ∧
        occupied.load (trickle 3) =
          ({ fresh occupied.consumesKeys occupied.rng with ram, stale := true }, .done 2) := by
  have hloadAt : occupied.ram.loadAt = 0x200 := rfl
  obtain ⟨hbroken, -, -⟩ := load_exact hloadAt [0x00, 0xE0] (fun _ => 1) (some 2) "gone"
  obtain ⟨-, -, hloaded⟩ := load_exact hloadAt [0x00, 0xE0] (fun _ => 1) (some 3) "gone"
  refine ⟨hbroken ⟨2, rfl, by decide⟩, hloaded ?_ (by decide)⟩
  intro offset hoffset
  cases hoffset
  decide

end Machine

end Chip8Console
