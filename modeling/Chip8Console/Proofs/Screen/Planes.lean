import Chip8Console.Proofs.Screen.Precision
import Chip8Console.Screen.Raster

/-!
# A picture taken apart

The bytes of a picture number its pixels row by row, so the number of a pixel divided by the width is its row,
with its column left over. That gives every number its own place and every column of every row its number. So
the bitplanes of ones and of zeros share no place and leave none out, if there are no other bytes. In double
precision the places are the same as long as no side is so long that two columns, or two rows, become one.
-/

namespace Chip8Console.Raster

variable {r : Raster} {data : List UInt8} {v : UInt8} {p : Int × Int} {j k x y : Nat}

/-- In an earlier row, or further left in the same one. -/
def Precedes (p q : Int × Int) : Prop := q.2 < p.2 ∨ p.2 = q.2 ∧ p.1 < q.1

/-- Between the least and the greatest column and the least and the greatest row. -/
def Within (columns rows p : Int × Int) : Prop :=
  (columns.1 ≤ p.1 ∧ p.1 ≤ columns.2) ∧ rows.1 ≤ p.2 ∧ p.2 ≤ rows.2

theorem Precedes.ne {p q : Int × Int} (h : Precedes p q) : p ≠ q := by
  rintro rfl
  rcases h with hrow | ⟨-, hcolumn⟩
  · exact Int.lt_irrefl _ hrow
  · exact Int.lt_irrefl _ hcolumn

/-! ## Places -/

theorem place_precedes (r : Raster) (hless : j < k) : Precedes (r.place j) (r.place k) := by
  have hj := Nat.div_add_mod j r.width.toNat
  have hk := Nat.div_add_mod k r.width.toNat
  rcases Nat.lt_or_eq_of_le (Nat.div_le_div_right (Nat.le_of_lt hless)) with hrow | hrow
  · exact .inl (Int.neg_lt_neg (Int.ofNat_lt.2 hrow))
  · refine .inr ⟨congrArg (fun n : Nat => -(n : Int)) hrow, Int.ofNat_lt.2 ?_⟩
    rw [hrow] at hj
    omega

theorem place_inj : r.place j = r.place k ↔ j = k := by
  refine ⟨fun hsame => ?_, congrArg r.place⟩
  rcases Nat.lt_trichotomy j k with hless | heq | hless
  · exact absurd hsame (r.place_precedes hless).ne
  · exact heq
  · exact absurd hsame.symm (r.place_precedes hless).ne

theorem place_of_lt (hx : x < r.width.toNat) (y : Nat) :
    r.place (y * r.width.toNat + x) = ((x : Int), -(y : Int)) := by
  have hcolumn : (y * r.width.toNat + x) % r.width.toNat = x := by
    rw [Nat.mul_comm, Nat.mul_add_mod, Nat.mod_eq_of_lt hx]
  have hrow : (y * r.width.toNat + x) / r.width.toNat = y := by
    rw [Nat.mul_comm, Nat.mul_add_div (Nat.zero_lt_of_lt hx), Nat.div_eq_of_lt hx, Nat.add_zero]
  rw [place, hcolumn, hrow]

/-- Every number below the number of pixels belongs to a column of a row. -/
theorem exists_column_row (hk : k < r.width.toNat * r.height.toNat) :
    ∃ x y, x < r.width.toNat ∧ y < r.height.toNat ∧ k = y * r.width.toNat + x := by
  have hwidth : 0 < r.width.toNat := by
    rcases Nat.eq_zero_or_pos r.width.toNat with hzero | hpos
    · rw [hzero, Nat.zero_mul] at hk
      exact absurd hk (Nat.not_lt_zero k)
    · exact hpos
  exact ⟨k % r.width.toNat, k / r.width.toNat, Nat.mod_lt k hwidth, Nat.div_lt_of_lt_mul hk,
    (Nat.div_add_mod' k r.width.toNat).symm⟩

theorem number_lt (hx : x < r.width.toNat) (hy : y < r.height.toNat) :
    y * r.width.toNat + x < r.width.toNat * r.height.toNat := by
  calc y * r.width.toNat + x < (y + 1) * r.width.toNat := by rw [Nat.succ_mul]; omega
    _ ≤ r.height.toNat * r.width.toNat := Nat.mul_le_mul_right _ hy
    _ = r.width.toNat * r.height.toNat := Nat.mul_comm _ _

theorem toNat_size (hfits : r.width.toNat * r.height.toNat < UInt64.size) :
    r.size.toNat = r.width.toNat * r.height.toNat := by
  rw [size, UInt64.toNat_mul]
  exact Nat.mod_eq_of_lt hfits

/-! ## Planes -/

theorem mem_plane_iff : p ∈ r.plane data v ↔ ∃ k, k < r.size.toNat ∧ data[k]? = some v ∧ r.place k = p := by
  simp only [plane, List.mem_map, List.mem_filter, List.mem_zipIdx_iff_getElem?, beq_iff_eq, Prod.exists,
    List.getElem?_take]
  constructor
  · rintro ⟨b, k, ⟨hb, rfl⟩, hplace⟩
    by_cases hk : k < r.size.toNat
    · exact ⟨k, hk, by rwa [if_pos hk] at hb, hplace⟩
    · rw [if_neg hk] at hb
      exact absurd hb (Option.some_ne_none b).symm
  · rintro ⟨k, hk, hb, hplace⟩
    exact ⟨v, k, ⟨by rwa [if_pos hk], rfl⟩, hplace⟩

/-- The places come row by row, and from the left in each row. -/
theorem pairwise_plane (r : Raster) (data : List UInt8) (v : UInt8) :
    (r.plane data v).Pairwise Precedes := by
  have hnumbered : (data.take r.size.toNat).zipIdx.Pairwise fun a b => a.2 < b.2 := by
    rw [← List.pairwise_map, List.zipIdx_map_snd]
    exact List.pairwise_lt_range'
  rw [plane, List.pairwise_map]
  exact (hnumbered.filter _).imp r.place_precedes

theorem nodup_plane (r : Raster) (data : List UInt8) (v : UInt8) : (r.plane data v).Nodup :=
  (r.pairwise_plane data v).imp Precedes.ne

theorem length_plane (r : Raster) (data : List UInt8) (v : UInt8) :
    (r.plane data v).length = (data.take r.size.toNat).count v := by
  rw [plane, List.length_map, ← List.countP_eq_length_filter, List.count_eq_countP]
  conv =>
    rhs
    rw [← List.zipIdx_map_fst 0 (data.take r.size.toNat), List.countP_map]
  rfl

def Bits (bytes : List UInt8) : Prop := ∀ b ∈ bytes, b = 0 ∨ b = 1

instance instDecidableBits (bytes : List UInt8) : Decidable (Bits bytes) :=
  List.decidableBAll (fun b => b = 0 ∨ b = 1) bytes

theorem Bits.count_add_count {bytes : List UInt8} (h : Bits bytes) :
    bytes.count 1 + bytes.count 0 = bytes.length := by
  induction bytes with
  | nil => rfl
  | cons b rest ih =>
    obtain ⟨hb, hrest⟩ := List.forall_mem_cons.1 h
    have hcount := ih hrest
    rcases hb with rfl | rfl <;> simp <;> omega

theorem Bits.getElem?_eq {bytes : List UInt8} (h : Bits bytes) (hk : k < bytes.length) :
    bytes[k]? = some 0 ∨ bytes[k]? = some 1 := by
  rw [List.getElem?_eq_getElem hk, Option.some.injEq, Option.some.injEq]
  exact h _ (List.getElem_mem hk)

/-! ## What a plane has, for a picture whose number of pixels is a 64-bit word -/

section

variable (hfits : r.width.toNat * r.height.toNat < UInt64.size)

include hfits

theorem mem_plane_place_iff (hx : x < r.width.toNat) (hy : y < r.height.toNat) :
    ((x : Int), -(y : Int)) ∈ r.plane data v ↔ data[y * r.width.toNat + x]? = some v := by
  rw [mem_plane_iff, toNat_size hfits, ← place_of_lt hx y]
  constructor
  · rintro ⟨k, -, hb, hplace⟩
    rwa [← place_inj.1 hplace]
  · intro hb
    exact ⟨_, number_lt hx hy, hb, rfl⟩

theorem exists_of_mem_plane (hp : p ∈ r.plane data v) :
    ∃ x y : Nat, x < r.width.toNat ∧ y < r.height.toNat ∧ p = ((x : Int), -(y : Int)) := by
  obtain ⟨k, hk, -, rfl⟩ := mem_plane_iff.1 hp
  rw [toNat_size hfits] at hk
  obtain ⟨x, y, hx, hy, rfl⟩ := exists_column_row hk
  exact ⟨x, y, hx, hy, place_of_lt hx y⟩

theorem within_of_mem_plane (hp : p ∈ r.plane data v) : Within r.columnBounds r.rowBounds p := by
  obtain ⟨x, y, hx, hy, rfl⟩ := exists_of_mem_plane hfits hp
  simp only [Within, columnBounds, rowBounds]
  omega

end

/-! ## In double precision -/

theorem Within.drawn {columns rows : Int × Int} (h : Within columns rows p) :
    Within (Raster.drawn columns) (Raster.drawn rows) (Raster.drawn p) :=
  ⟨⟨Precision.nearestInt_mono h.1.1, Precision.nearestInt_mono h.1.2⟩,
    Precision.nearestInt_mono h.2.1, Precision.nearestInt_mono h.2.2⟩

/-- The longest sides with a place of its own for each column and each row. -/
def longestExact : Nat := 9007199254740993

theorem drawn_eq_self (hcolumn : p.1.natAbs < longestExact) (hrow : p.2.natAbs < longestExact) :
    drawn p = p := by
  rw [drawn, Precision.nearestInt_eq_self (Nat.le_of_lt_succ hcolumn),
    Precision.nearestInt_eq_self (Nat.le_of_lt_succ hrow)]

theorem drawn_columnBounds (hwidth : r.width.toNat ≤ longestExact) : drawn r.columnBounds = r.columnBounds := by
  apply drawn_eq_self
  · exact (by decide : (0 : Int).natAbs < longestExact)
  · simp only [columnBounds, longestExact] at *
    omega

theorem drawn_rowBounds (hheight : r.height.toNat ≤ longestExact) : drawn r.rowBounds = r.rowBounds := by
  apply drawn_eq_self
  · simp only [rowBounds, longestExact] at *
    omega
  · exact (by decide : (0 : Int).natAbs < longestExact)

theorem map_drawn_plane (hfits : r.width.toNat * r.height.toNat < UInt64.size)
    (hwidth : r.width.toNat ≤ longestExact) (hheight : r.height.toNat ≤ longestExact)
    (data : List UInt8) (v : UInt8) : (r.plane data v).map drawn = r.plane data v := by
  have hplaces : ∀ p ∈ r.plane data v, drawn p = id p := by
    intro p hp
    obtain ⟨x, y, hx, hy, rfl⟩ := exists_of_mem_plane hfits hp
    refine drawn_eq_self ?_ ?_
    · exact Nat.lt_of_lt_of_le hx hwidth
    · rw [Int.natAbs_neg]
      exact Nat.lt_of_lt_of_le hy hheight
  rw [List.map_congr_left hplaces, List.map_id]

/-! ## The whole picture -/

/-- Two lists of places that take a picture apart into lit and dark pixels. -/
structure Splits (r : Raster) (data : List UInt8) (lit dark : List (Int × Int)) : Prop where
  nodup_lit : lit.Nodup
  nodup_dark : dark.Nodup
  disjoint : ∀ p ∈ lit, p ∉ dark
  covers : ∀ p, p ∈ lit ∨ p ∈ dark ↔
    ∃ x y : Nat, x < r.width.toNat ∧ y < r.height.toNat ∧ p = ((x : Int), -(y : Int))
  length : lit.length + dark.length = r.width.toNat * r.height.toNat
  lit_iff : ∀ x y : Nat, x < r.width.toNat → y < r.height.toNat →
    (((x : Int), -(y : Int)) ∈ lit ↔ data[y * r.width.toNat + x]? = some 1)
  ordered_lit : lit.Pairwise Precedes
  ordered_dark : dark.Pairwise Precedes
  inside : ∀ p, p ∈ lit ∨ p ∈ dark → Within r.columnBounds r.rowBounds p

theorem splits_planes (hlength : data.length < UInt64.size)
    (henough : r.width.toNat * r.height.toNat ≤ data.length)
    (hbits : Bits (data.take (r.width.toNat * r.height.toNat))) :
    r.Splits data (r.plane data 1) (r.plane data 0) := by
  have hfits := Nat.lt_of_le_of_lt henough hlength
  have hsize := toNat_size hfits
  have hbit : ∀ {k}, k < r.width.toNat * r.height.toNat → data[k]? = some 0 ∨ data[k]? = some 1 := by
    intro k hk
    rw [← List.getElem?_take_of_lt hk]
    exact hbits.getElem?_eq (by rwa [List.length_take_of_le henough])
  exact {
    nodup_lit := r.nodup_plane data 1
    nodup_dark := r.nodup_plane data 0
    disjoint := by
      intro p hlit hdark
      obtain ⟨k, -, hone, hk⟩ := mem_plane_iff.1 hlit
      obtain ⟨j, -, hzero, hj⟩ := mem_plane_iff.1 hdark
      obtain rfl : j = k := place_inj.1 (hj.trans hk.symm)
      rw [hone] at hzero
      exact absurd (Option.some.inj hzero) (by decide)
    covers := by
      intro p
      constructor
      · rintro (hp | hp) <;> exact exists_of_mem_plane hfits hp
      · rintro ⟨x, y, hx, hy, rfl⟩
        rw [mem_plane_place_iff hfits hx hy, mem_plane_place_iff hfits hx hy]
        exact (hbit (number_lt hx hy)).symm
    length := by
      rw [length_plane, length_plane, hsize, hbits.count_add_count, List.length_take_of_le henough]
    lit_iff := fun x y hx hy => mem_plane_place_iff hfits hx hy
    ordered_lit := r.pairwise_plane data 1
    ordered_dark := r.pairwise_plane data 0
    inside := by
      rintro p (hp | hp) <;> exact within_of_mem_plane hfits hp }

theorem plane_congr {other : List UInt8} (hsame : other.take r.size.toNat = data.take r.size.toNat)
    (v : UInt8) : r.plane other v = r.plane data v := by
  rw [plane, plane, hsame]

/-- The bitplanes of ones and of zeros split a picture of such bytes: no place comes twice, none is left out,
and a place is among those of ones just if its byte is one. The places are in the order of the data, and
inside the bounds. Bytes past the last pixel make no difference. In double precision all places are inside the
bounds too, and places and bounds are just the same as long as no side is too long for that. -/
theorem planes_split (r : Raster) (data : List UInt8) (hlength : data.length < UInt64.size)
    (henough : r.width.toNat * r.height.toNat ≤ data.length)
    (hbits : Bits (data.take (r.width.toNat * r.height.toNat))) :
    r.Splits data (r.plane data 1) (r.plane data 0) ∧
      (∀ other : List UInt8,
        other.take (r.width.toNat * r.height.toNat) = data.take (r.width.toNat * r.height.toNat) →
        ∀ v, r.plane other v = r.plane data v) ∧
      (∀ v, ∀ p ∈ r.plane data v, Within (drawn r.columnBounds) (drawn r.rowBounds) (drawn p)) ∧
      (r.width.toNat ≤ longestExact → r.height.toNat ≤ longestExact →
        (∀ v, (r.plane data v).map drawn = r.plane data v) ∧
          drawn r.columnBounds = r.columnBounds ∧ drawn r.rowBounds = r.rowBounds) := by
  have hfits := Nat.lt_of_le_of_lt henough hlength
  refine ⟨splits_planes hlength henough hbits, ?_, ?_, ?_⟩
  · intro other hsame v
    rw [← toNat_size hfits] at hsame
    exact plane_congr hsame v
  · intro v p hp
    exact (within_of_mem_plane hfits hp).drawn
  · intro hwidth hheight
    exact ⟨map_drawn_plane hfits hwidth hheight data, drawn_columnBounds hwidth, drawn_rowBounds hheight⟩

def sixPixels : List UInt8 := [1, 0, 0, 1, 1, 0, 9]

theorem sixPixels_split :
    Raster.Splits ⟨3, 2⟩ sixPixels [(0, 0), (0, -1), (1, -1)] [(1, 0), (2, 0), (2, -1)] ∧
      Raster.plane ⟨3, 2⟩ [1, 0, 0, 1, 1, 0] 1 = [(0, 0), (0, -1), (1, -1)] ∧
      (Raster.plane ⟨3, 2⟩ sixPixels 1).map drawn = [(0, 0), (0, -1), (1, -1)] := by
  obtain ⟨hsplits, hrest, -, hexact⟩ :=
    planes_split ⟨3, 2⟩ sixPixels (by decide) (by decide) (by decide)
  obtain ⟨hdrawn, -⟩ := hexact (by decide) (by decide)
  exact ⟨hsplits, hrest [1, 0, 0, 1, 1, 0] rfl 1, hdrawn 1⟩

/-- With one column more the last two become one. -/
example : drawn (longestExact, 0) = drawn ((longestExact : Int) - 1, 0) := by decide

end Chip8Console.Raster
