import Chip8Console.Proofs.Machine.Bare.Basic
import Chip8Console.Proofs.Machine.Fault
import Chip8Console.Proofs.Ram.Overlay

/-!
# Bare cells in bounds

On the cells of a machine every partial operation has its answer, because the place it asks for is
there, and the answer is what the machine does. One lemma for each operation: cells, registers, keys,
memory, and the screen, where a sprite's cells are at most eight columns and sixteen rows from its
corner.
-/

namespace Chip8Console

namespace Cells

variable {α : Type} {n : Nat}

theorem put?_toList (cells : Vector α n) {k : Nat} (hk : k < n) (a : α) :
    put? cells.toList k a = some (cells.set k a hk).toList := by
  rw [put?, if_pos (by simpa using hk), Vector.toList_set]

theorem part?_toList (cells : Vector α n) {start len : Nat} (h : start + len ≤ n) :
    part? cells.toList start len = some (List.ofFn fun k : Fin len => cells[start + k.val]) := by
  rw [part?, if_pos (by simpa using h)]
  apply congrArg some
  apply List.ext_getElem
  · simp
    omega
  · intro k hk hk'
    simp

/-- What a cell holds after others have been laid over some of them. -/
theorem getElem_laid {cells data : List α} {start k : Nat} (h : start + data.length ≤ cells.length)
    (hk : k < cells.length)
    (hlaid : k < (cells.take start ++ data ++ cells.drop (start + data.length)).length) :
    (cells.take start ++ data ++ cells.drop (start + data.length))[k] =
      if start ≤ k then (data[k - start]?).getD cells[k] else cells[k] := by
  have htake : (cells.take start).length = start := by
    rw [List.length_take]
    omega
  have hfront : (cells.take start ++ data).length = start + data.length := by
    rw [List.length_append, htake]
  by_cases hlow : k < start
  · rw [if_neg (by omega), List.getElem_append_left (by omega), List.getElem_append_left (by omega),
      List.getElem_take]
  · rw [if_pos (by omega)]
    by_cases hmiddle : k < start + data.length
    · rw [List.getElem_append_left (by omega), List.getElem_append_right (by omega),
        List.getElem?_eq_getElem (by omega), Option.getD_some]
      simp only [htake]
    · have hsum : start + data.length + (k - (start + data.length)) = k := by omega
      rw [List.getElem_append_right (by omega), List.getElem_drop,
        List.getElem?_eq_none (by omega), Option.getD_none]
      simp only [hfront, hsum]

theorem lay?_toList (bytes : Vector UInt8 4096) {start : Nat} {data : List UInt8}
    (h : start + data.length ≤ 4096) :
    lay? bytes.toList start data = some (Ram.overlay bytes start data).toList := by
  have hlen : start + data.length ≤ bytes.toList.length := by rwa [Vector.length_toList]
  rw [lay?, if_pos hlen]
  apply congrArg some
  apply List.ext_getElem
  · simp only [List.length_append, List.length_take, List.length_drop, Vector.length_toList]
    omega
  · intro k hk hk'
    have hlt : k < 4096 := by rwa [Vector.length_toList] at hk'
    rw [getElem_laid hlen (by rwa [Vector.length_toList]) hk, Vector.getElem_toList,
      Vector.getElem_toList, Ram.getElem_overlay _ _ _ _ hlt]

theorem lay?_registers (v : Vector UInt8 16) {data : List UInt8} (h : data.length ≤ 16) :
    lay? v.toList 0 data = some (Machine.loaded v data).toList := by
  have hlen : 0 + data.length ≤ v.toList.length := by rwa [Vector.length_toList, Nat.zero_add]
  rw [lay?, if_pos hlen]
  apply congrArg some
  apply List.ext_getElem
  · simp only [List.length_append, List.length_take, List.length_drop, Vector.length_toList]
    omega
  · intro k hk hk'
    have hlt : k < 16 := by rwa [Vector.length_toList] at hk'
    rw [getElem_laid hlen (by rwa [Vector.length_toList]) hk, if_pos (Nat.zero_le k)]
    simp only [Machine.loaded, Nat.sub_zero, Vector.getElem_toList, Vector.getElem_ofFn]
    rfl

theorem fillFrom?_toList (cells : Vector α n) {start : Nat} (h : start ≤ n) (a : α) :
    fillFrom? cells.toList start a =
      some (Vector.ofFn fun k : Fin n => if start ≤ k.val then a else cells[k]).toList := by
  have hlen : cells.toList.length = n := Vector.length_toList
  rw [fillFrom?, hlen, if_pos h]
  refine congrArg some (List.ext_getElem ?_ fun k hk hk' => ?_)
  · rw [List.length_append, List.length_take, List.length_replicate, hlen, Vector.length_toList]
    omega
  · rw [List.getElem_append, Vector.getElem_toList, Vector.getElem_ofFn]
    by_cases hlow : k < start
    · rw [dif_pos (by rw [List.length_take, hlen]; omega), if_neg (by simpa using hlow),
        List.getElem_take, Vector.getElem_toList]
      rfl
    · rw [dif_neg (by rw [List.length_take, hlen]; omega), if_pos (by simpa using hlow),
        List.getElem_replicate]

theorem fillFrom?_bytes (bytes : Vector UInt8 4096) {start : Nat} (h : start ≤ 4096) :
    fillFrom? bytes.toList start 0 = some (Ram.zeroFrom bytes start).toList :=
  fillFrom?_toList bytes h 0

end Cells

theorem fit?_of_lt (bits : Nat) {n : Nat} (h : n < Nat.pow 2 bits) : fit? bits n = some n := if_pos h

namespace Decimal

theorem digits?_eq (b : UInt8) : digits? b = some (digits b) := by
  have hall : ∀ k : Fin 256, digits? (UInt8.ofNat k.val) = some (digits (UInt8.ofNat k.val)) := by
    decide +kernel
  simpa using hall ⟨b.toNat, b.toNat_lt⟩

end Decimal

namespace Bare

variable (m : Machine)

@[simp] theorem get?_ofMachine (x : Nibble) : (ofMachine m).get? x.val = some m.v[x] := by
  show m.v.toList[x.val]? = some m.v[x]
  rw [Vector.getElem?_toList, Vector.getElem?_eq_getElem x.isLt]
  rfl

@[simp] theorem set?_ofMachine (x : Nibble) (a : UInt8) :
    (ofMachine m).set? x.val a = some (ofMachine (m.set x a)) := by
  rw [set?, ofMachine, Cells.put?_toList m.v x.isLt]
  rfl

theorem set?_flag_ofMachine (a : UInt8) :
    (ofMachine m).set? 15 a = some (ofMachine (m.set Machine.flag a)) :=
  set?_ofMachine m Machine.flag a

@[simp] theorem setWithFlag?_ofMachine (x : Nibble) (a : UInt8) (flagged : Bool) :
    (ofMachine m).setWithFlag? x.val a flagged = some (ofMachine (m.setWithFlag x a flagged)) := by
  rw [setWithFlag?, set?_ofMachine]
  exact set?_flag_ofMachine _ _

@[simp] theorem skipIf_ofMachine (c : Bool) : (ofMachine m).skipIf c = ofMachine (m.skipIf c) := by
  cases c <;> rfl

theorem key_lt (key : UInt8) : key.toNat % 16 < 16 := Nat.mod_lt _ (by decide)

@[simp] theorem holdsKey?_ofMachine (key : UInt8) :
    (ofMachine m).holdsKey? key = some (m.holdsKey key) := by
  simp [holdsKey?, ofMachine, Machine.holdsKey, Keys.pressed, Keys.named, key_lt]

theorem releaseKey?_ofMachine (key : UInt8) :
    (ofMachine m).releaseKey? key = some (ofMachine (m.releaseKey key)) := by
  rw [releaseKey?, ofMachine, Cells.put?_toList m.keys.held (key_lt key)]
  rfl

theorem pressKey?_ofMachine (key : UInt8) :
    (ofMachine m).pressKey? key = some (ofMachine (m.pressKey key)) := by
  have hkeys : Cells.put? (ofMachine m).keys (key.toNat % 16) true =
      some (m.keys.press (Keys.named key)).held.toList :=
    Cells.put?_toList m.keys.held (key_lt key) true
  rw [pressKey?, hkeys]
  cases hw : m.waiting with
  | none =>
      rw [Machine.pressKey_of_waiting_eq_none hw]
      simp [ofMachine, hw]
  | some x =>
      rw [Machine.pressKey_of_waiting_eq_some hw, ← set?_ofMachine]
      simp [ofMachine, hw, Keys.named]

@[simp] theorem consume?_ofMachine (key : UInt8) :
    (ofMachine m).consume? key = some (ofMachine (m.consume key)) := by
  simp only [consume?, holdsKey?_ofMachine, Option.bind_eq_bind, Option.bind_some, Machine.consume]
  have hconsumes : (ofMachine m).consumesKeys = m.consumesKeys := rfl
  rw [hconsumes]
  split
  · exact releaseKey?_ofMachine m key
  · rfl

theorem read?_ofMachine (addr : UInt16) (len : Nat) :
    (ofMachine m).read? addr len = some (m.ram.read addr len) := by
  unfold read? Ram.read
  split
  · next h =>
    rw [ofMachine, Cells.part?_toList m.ram.bytes h]
    rfl
  · rfl

theorem write?_ofMachine (addr : UInt16) (data : List UInt8) :
    (ofMachine m).write? addr data =
      some ((m.ram.write addr data).map fun ram => ofMachine { m with ram }) := by
  unfold write? Ram.write
  split
  · next h =>
    rw [ofMachine, Cells.lay?_toList m.ram.bytes h]
    rfl
  · rfl

theorem fetch?_ofMachine : (ofMachine m).fetch? = some m.fetch := by
  have hread : (ofMachine m).read? (ofMachine m).pc 2 = some (m.ram.read m.pc 2) :=
    read?_ofMachine m m.pc 2
  rw [fetch?, hread, Machine.fetch]
  by_cases hle : m.pc.toNat + 2 ≤ 4096
  · have hbytes : m.ram.read m.pc 2 =
        .ok [m.ram.bytes[m.pc.toNat], m.ram.bytes[m.pc.toNat + 1]] := by
      rw [Ram.read, dif_pos hle]
      rfl
    rw [hbytes, Ram.word, dif_pos hle]
    rfl
  · rw [Ram.read, dif_neg hle, Ram.word, dif_neg hle]
    rfl

/-! ### The screen -/

theorem length_pixels : (ofMachine m).pixels.length = 2048 := by
  simp [ofMachine, Screen.toBytes]

theorem toBytes_blank : Screen.blank.toBytes = List.replicate 2048 0 := by
  rw [Screen.toBytes, Screen.blank, Vector.toList_replicate, List.map_replicate]
  rfl

theorem flip?_toBytes (s : Screen) (x y : Nat) :
    flip? s.toBytes x y = some ((s.toggle x y).1.toBytes, (s.toggle x y).2) := by
  have hplace : 64 * (y % 32) + x % 64 < 2048 := (Screen.index x y).isLt
  have hget : s.toBytes[64 * (y % 32) + x % 64]? = some (if s.pixel x y then 1 else 0) := by
    rw [Screen.toBytes, List.getElem?_map, List.getElem?_eq_getElem (by simpa using hplace),
      Vector.getElem_toList]
    rfl
  have hput (b : Bool) : Cells.put? s.toBytes (64 * (y % 32) + x % 64) (if b then 1 else 0) =
      some (⟨s.pixels.set (Screen.index x y).val b (Screen.index x y).isLt⟩ : Screen).toBytes := by
    rw [Cells.put?, if_pos (by simpa [Screen.toBytes] using hplace), Screen.toBytes,
      Screen.toBytes, Vector.toList_set, List.map_set]
    rfl
  have hturn (b : Bool) : ((if b then 1 else 0) ^^^ 1 : UInt8) = if !b then 1 else 0 := by
    cases b <;> rfl
  have hdark (b : Bool) : ((if !b then 1 else 0 : UInt8) == 0) = b := by
    cases b <;> rfl
  rw [flip?, fit?_of_lt 64 (Nat.lt_trans hplace (by decide))]
  simp only [Option.bind_eq_bind, Option.bind_some, hget, hturn, hput, hdark]
  rfl

theorem flipAll?_toBytes (s : Screen) (places : List (Nat × Nat)) :
    flipAll? s.toBytes places = some ((s.toggleAll places).1.toBytes, (s.toggleAll places).2) := by
  induction places generalizing s with
  | nil => rfl
  | cons place places ih =>
      obtain ⟨x, y⟩ := place
      simp only [flipAll?, flip?_toBytes, Option.bind_eq_bind, Option.bind_some, ih]
      rfl

theorem drawSprite?_toBytes (s : Screen) {x y : Nat} (hx : x < 256) (hy : y < 256)
    {rows : List UInt8} (hrows : rows.length < 16) :
    drawSprite? s.toBytes x y rows =
      some ((s.drawSprite x y rows).1.toBytes, (s.drawSprite x y rows).2) := by
  have hcells : ∀ cell ∈ Sprite.cells rows, cell.1 < 8 ∧ cell.2 < 16 := by
    intro cell hcell
    simp only [Sprite.cells, List.mem_flatMap, List.mem_map, List.mem_filter, List.mem_range] at hcell
    obtain ⟨⟨row, r⟩, hrow, c, ⟨hc, _⟩, rfl⟩ := hcell
    have hr := (List.mem_zipIdx hrow).2.1
    exact ⟨hc, by simp only; omega⟩
  have hplaces : ∀ cells : List (Nat × Nat), (∀ cell ∈ cells, cell.1 < 8 ∧ cell.2 < 16) →
      cells.mapM (fun cell => do return (← fit? 64 (x + cell.1), ← fit? 64 (y + cell.2))) =
        some (cells.map fun cell => (x + cell.1, y + cell.2)) := by
    intro cells hcells
    induction cells with
    | nil => rfl
    | cons cell cells ih =>
        obtain ⟨hc, hr⟩ := hcells cell List.mem_cons_self
        rw [List.mapM_cons, ih fun cell hcell => hcells cell (List.mem_cons_of_mem _ hcell)]
        simp only [fit?_of_lt 64 (show x + cell.1 < 18446744073709551616 by omega),
          fit?_of_lt 64 (show y + cell.2 < 18446744073709551616 by omega)]
        rfl
  rw [drawSprite?, hplaces _ hcells]
  exact flipAll?_toBytes s _

end Bare

end Chip8Console
