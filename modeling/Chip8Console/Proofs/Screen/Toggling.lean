import Chip8Console.Screen.Sprite
import Mathlib.Algebra.BigOperators.Group.Finset.Piecewise
import Mathlib.Algebra.BigOperators.Ring.Finset
import Mathlib.Data.Fintype.Fin
import Mathlib.Data.List.Nodup
import Mathlib.Data.List.Sigma

/-!
# Pixels turned over

Turning over the pixels at some places, one after another, leaves each pixel as it was or turned over, as
the number of times that it is listed is even or odd; so the order does not matter. If no pixel is listed
twice, a pixel that is lit at its turn was lit from the start.

The lit cells of a sprite are such a list: it is narrower and lower than the screen, so two of its cells
never come to lie on one pixel, wherever it is drawn and however it wraps. Which cell lies on a pixel is
told by how far the pixel is from the corner of the sprite, going around. Where the corner is counts
only as far as it wraps.

Pixels are counted by their columns and rows. Of two sets of pixels, those in just one of them and twice
those in both are as many as the two sets together; so drawing a sprite changes the count of lit pixels by
those that the sprite covers, less twice those of them that were lit.
-/

namespace Chip8Console

namespace Sprite

/-- How far a place lies behind another one on a circle of some size. -/
def offset (size start place : Nat) : Nat := (((place : Int) - start) % size).toNat

theorem offset_column {start column place : Nat} (hcolumn : column < 64) :
    (start + column) % 64 = place % 64 ↔ column = offset 64 start place := by
  unfold offset
  omega

theorem offset_row {start row place : Nat} (hrow : row < 32) :
    (start + row) % 32 = place % 32 ↔ row = offset 32 start place := by
  unfold offset
  omega

theorem mem_cells {rows : List UInt8} {c r : Nat} :
    (c, r) ∈ cells rows ↔ c < 8 ∧ ∃ row, rows[r]? = some row ∧ bit row c := by
  simp only [cells, List.mem_flatMap, List.mem_map, List.mem_filter, List.mem_range, Prod.exists,
    List.mk_mem_zipIdx_iff_getElem?, Prod.mk.injEq]
  constructor
  · rintro ⟨row, _, hrow, _, ⟨hc, hbit⟩, rfl, rfl⟩
    exact ⟨hc, row, hrow, hbit⟩
  · rintro ⟨hc, row, hrow, hbit⟩
    exact ⟨row, r, hrow, c, ⟨hc, hbit⟩, rfl, rfl⟩

theorem nodup_cells (rows : List UInt8) : (cells rows).Nodup := by
  apply List.nodup_flatMap.2
  constructor
  · intro row _
    apply (List.nodup_range.filter _).map
    intro c d hcd
    exact congrArg Prod.fst hcd
  · apply (List.pairwise_map.1 (List.nodup_zipIdx_map_snd rows)).imp
    intro row other hne cell hcell hother
    obtain ⟨c, -, rfl⟩ := List.mem_map.1 hcell
    obtain ⟨d, -, hd⟩ := List.mem_map.1 hother
    exact hne (congrArg Prod.snd hd).symm

/-- Whether a sprite with its corner at column `x` of row `y` has a lit cell over a pixel. -/
def covers (rows : List UInt8) (x y px py : Nat) : Bool :=
  decide (offset 64 x px < 8) &&
    (rows[offset 32 y py]?).any fun row => bit row (offset 64 x px)

end Sprite

namespace Screen

theorem index_eq_iff {x y px py : Nat} :
    index x y = index px py ↔ x % 64 = px % 64 ∧ y % 32 = py % 32 := by
  simp only [index, Fin.mk.injEq]
  omega

theorem pixel_congr (s : Screen) {x y px py : Nat} (h : index x y = index px py) :
    s.pixel x y = s.pixel px py :=
  congrArg s.pixels.get h

theorem toggle_congr (s : Screen) {x y px py : Nat} (h : index x y = index px py) :
    s.toggle x y = s.toggle px py := by
  simp only [toggle, pixel, h]

theorem pixel_toggle (s : Screen) (x y px py : Nat) :
    (s.toggle x y).1.pixel px py = (s.pixel px py ^^ decide (index x y = index px py)) := by
  show (s.pixels.set (index x y).val (!s.pixel x y) (index x y).isLt)[(index px py).val] = _
  rw [Vector.getElem_set]
  by_cases hsame : index x y = index px py
  · rw [if_pos (congrArg Fin.val hsame), s.pixel_congr hsame, decide_eq_true hsame, Bool.xor_true]
  · rw [if_neg (mt Fin.ext hsame), decide_eq_false hsame, Bool.xor_false]
    rfl

def indices (places : List (Nat × Nat)) : List (Fin 2048) := places.map fun place => index place.1 place.2

theorem toggleAll_cons (s : Screen) (place : Nat × Nat) (places : List (Nat × Nat)) :
    s.toggleAll (place :: places) =
      (((s.toggle place.1 place.2).1.toggleAll places).1,
        s.pixel place.1 place.2 || ((s.toggle place.1 place.2).1.toggleAll places).2) := rfl

/-- Places that lie on the same pixels are as good as one another. -/
theorem toggleAll_congr (s : Screen) {places others : List (Nat × Nat)}
    (h : indices places = indices others) : s.toggleAll places = s.toggleAll others := by
  induction places generalizing s others with
  | nil =>
      rw [List.map_eq_nil_iff.1 h.symm]
  | cons place places ih =>
      obtain ⟨other, rest, rfl, hfirst, hrest⟩ := List.map_eq_cons_iff.1 h.symm
      rw [toggleAll_cons, toggleAll_cons, s.toggle_congr hfirst, s.pixel_congr hfirst, ih _ hrest.symm]

theorem xor_odd (b : Bool) (n : Nat) :
    (b ^^ decide (n % 2 = 1)) = decide ((n + if b then 1 else 0) % 2 = 1) := by
  cases b with
  | false => rw [Bool.false_xor, if_neg Bool.false_ne_true, Nat.add_zero]
  | true =>
      rw [Bool.true_xor, if_pos rfl, ← decide_not]
      exact decide_eq_decide.2 (by omega)

/-- A pixel ends up turned over if it is listed an odd number of times. -/
theorem pixel_toggleAll (s : Screen) (places : List (Nat × Nat)) (px py : Nat) :
    (s.toggleAll places).1.pixel px py =
      (s.pixel px py ^^ decide ((indices places).count (index px py) % 2 = 1)) := by
  induction places generalizing s with
  | nil => simp [toggleAll, indices]
  | cons place places ih =>
      have hcons : indices (place :: places) = index place.1 place.2 :: indices places := rfl
      rw [toggleAll_cons, ih, pixel_toggle, hcons, List.count_cons, Bool.xor_assoc, ← beq_eq_decide,
        xor_odd]

/-- If no pixel is listed twice, one was lit at its turn if one of them was lit before. -/
theorem toggleAll_hit (s : Screen) {places : List (Nat × Nat)} (hnodup : (indices places).Nodup) :
    (s.toggleAll places).2 = places.any fun place => s.pixel place.1 place.2 := by
  induction places generalizing s with
  | nil => rfl
  | cons place places ih =>
      obtain ⟨hfresh, hrest⟩ := List.nodup_cons.1 hnodup
      have hkept : ∀ later ∈ places,
          (s.toggle place.1 place.2).1.pixel later.1 later.2 = s.pixel later.1 later.2 := by
        intro later hlater
        have hne : index place.1 place.2 ≠ index later.1 later.2 := fun hsame =>
          hfresh (List.mem_map.2 ⟨later, hlater, hsame.symm⟩)
        rw [pixel_toggle, decide_eq_false hne, Bool.xor_false]
      rw [toggleAll_cons, ih _ hrest, List.any_cons]
      apply congrArg (s.pixel place.1 place.2 || ·)
      rw [Bool.eq_iff_iff, List.any_eq_true, List.any_eq_true]
      exact exists_congr fun later => and_congr_right fun hlater => by rw [hkept later hlater]

/-! ### Sprites -/

/-- The places of the lit cells of a sprite, with its corner at column `x` of row `y`. -/
def placesOf (x y : Nat) (rows : List UInt8) : List (Nat × Nat) :=
  (Sprite.cells rows).map fun cell => (x + cell.1, y + cell.2)

theorem drawSprite_eq (s : Screen) (x y : Nat) (rows : List UInt8) :
    s.drawSprite x y rows = s.toggleAll (placesOf x y rows) := rfl

variable {rows : List UInt8}

/-- A sprite may as well be drawn any number of screens to the side, or up or down. -/
theorem drawSprite_congr (s : Screen) {x y x' y' : Nat} (hcolumn : x % 64 = x' % 64)
    (hrow : y % 32 = y' % 32) : s.drawSprite x y rows = s.drawSprite x' y' rows := by
  rw [drawSprite_eq, drawSprite_eq]
  apply toggleAll_congr
  rw [indices, indices, placesOf, placesOf, List.map_map, List.map_map]
  apply List.map_congr_left
  intro cell _
  exact index_eq_iff.2 ⟨by dsimp only; omega, by dsimp only; omega⟩

/-- The cell of a sprite that lies on a pixel. -/
theorem index_eq_iff_of_mem_cells (hheight : rows.length ≤ 32) {cell : Nat × Nat}
    (hcell : cell ∈ Sprite.cells rows) (x y px py : Nat) :
    index (x + cell.1) (y + cell.2) = index px py ↔
      cell = (Sprite.offset 64 x px, Sprite.offset 32 y py) := by
  obtain ⟨hcolumn, row, hrow, -⟩ := Sprite.mem_cells.1 hcell
  have hlength := (List.getElem?_eq_some_iff.1 hrow).1
  rw [index_eq_iff, Sprite.offset_column (by omega), Sprite.offset_row (by omega), Prod.ext_iff]

/-- No two cells of a sprite lie on one pixel. -/
theorem nodup_indices_placesOf (hheight : rows.length ≤ 32) (x y : Nat) :
    (indices (placesOf x y rows)).Nodup := by
  rw [indices, placesOf, List.map_map]
  apply List.Nodup.map_on _ (Sprite.nodup_cells rows)
  intro cell hcell other hother hsame
  have hcorner := (index_eq_iff_of_mem_cells hheight hother x y _ _).1 rfl
  rw [hcorner]
  exact (index_eq_iff_of_mem_cells hheight hcell x y _ _).1 hsame

theorem mem_indices_placesOf (hheight : rows.length ≤ 32) (x y px py : Nat) :
    index px py ∈ indices (placesOf x y rows) ↔ Sprite.covers rows x y px py := by
  have hcovers : Sprite.covers rows x y px py ↔
      (Sprite.offset 64 x px, Sprite.offset 32 y py) ∈ Sprite.cells rows := by
    rw [Sprite.mem_cells, Sprite.covers, Bool.and_eq_true, decide_eq_true_iff, Option.any_eq_true]
  rw [hcovers, indices, placesOf, List.map_map, List.mem_map]
  constructor
  · rintro ⟨cell, hcell, hindex⟩
    rwa [← (index_eq_iff_of_mem_cells hheight hcell x y px py).1 hindex]
  · intro hcell
    exact ⟨_, hcell, (index_eq_iff_of_mem_cells hheight hcell x y px py).2 rfl⟩

/-- Drawing a sprite turns over the pixels that it covers. -/
theorem pixel_drawSprite (s : Screen) (hheight : rows.length ≤ 32) (x y px py : Nat) :
    (s.drawSprite x y rows).1.pixel px py = (s.pixel px py ^^ Sprite.covers rows x y px py) := by
  have hmem := mem_indices_placesOf hheight x y px py
  rw [drawSprite_eq, pixel_toggleAll, (nodup_indices_placesOf hheight x y).count]
  cases hcovers : Sprite.covers rows x y px py with
  | false =>
      rw [hcovers] at hmem
      rw [if_neg (fun h => Bool.false_ne_true (hmem.1 h))]
      rfl
  | true =>
      rw [if_pos (hmem.2 hcovers)]
      rfl

/-- A sprite hits if it covers a pixel that is lit. -/
theorem drawSprite_hit_iff (s : Screen) (hheight : rows.length ≤ 32) (x y : Nat) :
    (s.drawSprite x y rows).2 ↔
      ∃ px py, px < 64 ∧ py < 32 ∧ s.pixel px py ∧ Sprite.covers rows x y px py := by
  rw [drawSprite_eq, toggleAll_hit s (nodup_indices_placesOf hheight x y), List.any_eq_true]
  constructor
  · rintro ⟨place, hplace, hlit⟩
    have hwrapped : index (place.1 % 64) (place.2 % 32) = index place.1 place.2 :=
      index_eq_iff.2 ⟨Nat.mod_mod _ _, Nat.mod_mod _ _⟩
    refine ⟨place.1 % 64, place.2 % 32, Nat.mod_lt _ (by decide), Nat.mod_lt _ (by decide), ?_, ?_⟩
    · rwa [s.pixel_congr hwrapped]
    · rw [← mem_indices_placesOf hheight, hwrapped]
      exact List.mem_map_of_mem hplace
  · rintro ⟨px, py, -, -, hlit, hcovers⟩
    obtain ⟨place, hplace, hindex⟩ := List.mem_map.1 ((mem_indices_placesOf hheight x y px py).2 hcovers)
    refine ⟨place, hplace, ?_⟩
    rwa [s.pixel_congr hindex]

/-! ### Counting -/

/-- The places of the pixels that pass a test of their column and row. -/
def passing (test : Nat → Nat → Bool) : Finset (Nat × Nat) :=
  (Finset.range 64 ×ˢ Finset.range 32).filter fun place => test place.1 place.2

theorem mem_passing {test : Nat → Nat → Bool} {place : Nat × Nat} :
    place ∈ passing test ↔ (place.1 < 64 ∧ place.2 < 32) ∧ test place.1 place.2 := by
  rw [passing, Finset.mem_filter, Finset.mem_product, Finset.mem_range, Finset.mem_range]

def tally (test : Nat → Nat → Bool) : Nat := (passing test).card

theorem litCount_eq_card (s : Screen) :
    s.litCount = (Finset.univ.filter fun k => true = s.pixels.get k).card := by
  have hlist : s.pixels.toList = List.ofFn s.pixels.get := calc
    s.pixels.toList = (Vector.ofFn s.pixels.get).toList := congrArg Vector.toList Vector.ofFn_getElem.symm
    _ = List.ofFn s.pixels.get := Vector.toList_ofFn
  rw [litCount, hlist, ← Multiset.coe_count, ← Fin.univ_val_map, Multiset.count_map]
  rfl

def columnRow (k : Fin 2048) : Nat × Nat := (k.val % 64, k.val / 64)

theorem columnRow_eq_iff {k : Fin 2048} {place : Nat × Nat} :
    columnRow k = place ↔ (place.1 < 64 ∧ place.2 < 32) ∧ index place.1 place.2 = k := by
  simp only [columnRow, index, Prod.ext_iff, Fin.ext_iff]
  omega

theorem columnRow_injective : Function.Injective columnRow := fun _ _ hsame =>
  (columnRow_eq_iff.1 hsame).2.symm.trans (columnRow_eq_iff.1 rfl).2

/-- A screen is told by its pixels. -/
theorem eq_of_pixel {s t : Screen} (h : ∀ px py, s.pixel px py = t.pixel px py) : s = t := by
  obtain ⟨pixels⟩ := s
  obtain ⟨others⟩ := t
  apply congrArg Screen.mk
  apply Vector.ext
  intro k hk
  obtain ⟨x, y, hindex⟩ : ∃ x y, index x y = ⟨k, hk⟩ := ⟨_, _, (columnRow_eq_iff.1 rfl).2⟩
  have hpixel : pixels.get (index x y) = others.get (index x y) := h x y
  rw [hindex] at hpixel
  exact hpixel

theorem litCount_eq_tally (s : Screen) : s.litCount = tally s.pixel := by
  rw [litCount_eq_card, ← Finset.card_image_of_injective _ columnRow_injective, tally]
  apply congrArg Finset.card
  ext place
  simp only [mem_passing, Finset.mem_image, Finset.mem_filter, Finset.mem_univ, true_and,
    columnRow_eq_iff]
  constructor
  · rintro ⟨k, hlit, hbounds, rfl⟩
    exact ⟨hbounds, hlit.symm⟩
  · rintro ⟨hbounds, hlit⟩
    exact ⟨index place.1 place.2, hlit.symm, hbounds, rfl⟩

theorem tally_xor (a b : Nat → Nat → Bool) :
    tally (fun px py => a px py ^^ b px py) + 2 * tally (fun px py => a px py && b px py) =
      tally a + tally b := by
  simp only [tally, passing, Finset.card_filter, Finset.mul_sum]
  rw [← Finset.sum_add_distrib, ← Finset.sum_add_distrib]
  refine Finset.sum_congr rfl fun place _ => ?_
  cases a place.1 place.2 <;> cases b place.1 place.2 <;> rfl

/-- Drawing a sprite changes the count by the pixels that it covers, less twice those that it hits. -/
theorem litCount_drawSprite (s : Screen) (hheight : rows.length ≤ 32) (x y : Nat) :
    (s.drawSprite x y rows).1.litCount +
        2 * tally (fun px py => s.pixel px py && Sprite.covers rows x y px py) =
      s.litCount + tally (Sprite.covers rows x y) := by
  have hpixels : (s.drawSprite x y rows).1.pixel =
      fun px py => s.pixel px py ^^ Sprite.covers rows x y px py :=
    funext fun px => funext fun py => s.pixel_drawSprite hheight x y px py
  rw [litCount_eq_tally, litCount_eq_tally, hpixels, tally_xor]

end Screen

end Chip8Console
