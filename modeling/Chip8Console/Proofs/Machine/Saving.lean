import Chip8Console.Proofs.Machine.Operation

/-!
# Registers saved in memory

A store puts the first registers into memory, and a load takes them out again. What lies between the two does
not matter as long as it writes nothing over them and leaves the index where it was: no instruction can write
but at the index, and how many bytes it writes there is known, so the cells that a run spares are told from
the instructions it carries out.
-/

namespace Chip8Console.Machine

/-- Whether an instruction writes none of some cells in a row. -/
def misses (m : Machine) (start len : Nat) (instruction : Instruction) : Bool :=
  instruction.stores = 0 || m.i.toNat + instruction.stores ≤ start || start + len ≤ m.i.toNat

/-- Whether operations load no program, and what they carry out writes none of some cells in a row. -/
def spares (m : Machine) (start len : Nat) : List Operation → Bool
  | [] => true
  | operation :: operations =>
    !operation.loads && (m.performed? operation).all (m.misses start len) &&
      (m.operate operation).spares start len operations

variable {m : Machine} {start len : Nat}

/-! ### Cells that are spared -/

theorem misses_iff {instruction : Instruction} :
    m.misses start len instruction ↔ instruction.stores = 0 ∨
      m.i.toNat + instruction.stores ≤ start ∨ start + len ≤ m.i.toNat := by
  simp [misses, or_assoc]

theorem getElem?_perform {instruction : Instruction} (hmisses : m.misses start len instruction)
    (pc next : UInt16) {k : Nat} (hstart : start ≤ k) (hend : k < start + len) :
    ({ m with pc := next }.perform pc instruction).1.ram.bytes[k]? = m.ram.bytes[k]? := by
  rw [misses_iff] at hmisses
  have hfootprint := Footprint.perform { m with pc := next } pc instruction
  by_cases hk : k < 4096
  · rw [Vector.getElem?_eq_getElem hk, Vector.getElem?_eq_getElem hk]
    apply congrArg some
    apply hfootprint.memory ⟨k, hk⟩
    show ¬ (m.i.toNat ≤ k ∧ k < m.i.toNat + instruction.stores)
    omega
  · have hpast : 4096 ≤ k := Nat.le_of_not_lt hk
    rw [Vector.getElem?_eq_none hpast, Vector.getElem?_eq_none hpast]

theorem getElem?_operate {operation : Operation} (hloads : operation.loads = false)
    (hmisses : (m.performed? operation).all (m.misses start len)) {k : Nat} (hstart : start ≤ k)
    (hend : k < start + len) : (m.operate operation).ram.bytes[k]? = m.ram.bytes[k]? := by
  obtain ⟨-, -, hram⟩ | ⟨instruction, hsome, hperform⟩ := m.operate_cases operation
  · rw [hram hloads]
  · rw [hsome, Option.all_some] at hmisses
    rw [hperform]
    exact getElem?_perform hmisses _ _ hstart hend

theorem getElem?_through {operations : List Operation} (hspares : m.spares start len operations) {k : Nat}
    (hstart : start ≤ k) (hend : k < start + len) :
    (m.through operations).ram.bytes[k]? = m.ram.bytes[k]? := by
  induction operations generalizing m with
  | nil => rfl
  | cons operation operations ih =>
      simp only [spares, Bool.and_eq_true, Bool.not_eq_true'] at hspares
      obtain ⟨⟨hloads, hmisses⟩, hrest⟩ := hspares
      exact (ih hrest).trans (getElem?_operate hloads hmisses hstart hend)

/-! ### Storing and loading -/

theorem getElem?_take_registers (v : Vector UInt8 16) {x k : Nibble} (hk : k ≤ x) :
    (v.toList.take (x.val + 1))[k.val]? = some v[k] := by
  rw [List.getElem?_take_of_lt (Nat.lt_succ_of_le hk), Vector.getElem?_toList]
  exact Vector.getElem?_eq_getElem k.isLt

theorem getElem_loaded (v : Vector UInt8 16) (data : List UInt8) (k : Nibble) :
    (loaded v data)[k] = (data[k.val]?).getD v[k] :=
  getElem_ofFn_nibble _ k

/-- What a store within memory comes to. -/
theorem exec_store {x : Nibble} (hroom : m.i.toNat + (x.val + 1) ≤ 4096) :
    m.exec (.store x) =
      ({ m with
        pc := m.pc + 2
        ram := { m.ram with
          bytes := Ram.overlay m.ram.bytes m.i.toNat (m.v.toList.take (x.val + 1)) } }, .advanced) := by
  have hlength := length_take_registers m.v x
  have hwrite : m.ram.write m.i (m.v.toList.take (x.val + 1)) =
      .ok { m.ram with bytes := Ram.overlay m.ram.bytes m.i.toNat (m.v.toList.take (x.val + 1)) } :=
    if_pos (hlength.symm ▸ hroom)
  simp only [exec, perform, hwrite]

/-- What a load within memory comes to. -/
theorem exec_load {x : Nibble} {data : List UInt8} (hread : m.ram.read m.i (x.val + 1) = .ok data) :
    m.exec (.load x) = ({ m with pc := m.pc + 2, v := loaded m.v data }, .advanced) := by
  simp only [exec, perform, hread]

/-- Whether memory holds the registers of a machine up to some register, from the index on. -/
def Saved (m : Machine) (x : Nibble) (ram : Ram) : Prop :=
  ∀ k : Nibble, k ≤ x → ram.bytes[m.i.toNat + k.val]? = some m.v[k]

theorem saved_store {x : Nibble} (hroom : m.i.toNat + (x.val + 1) ≤ 4096) :
    m.Saved x (m.exec (.store x)).1.ram := by
  intro k hk
  have hle : k.val ≤ x.val := hk
  have hinside : m.i.toNat + k.val < 4096 := by omega
  rw [exec_store hroom, Ram.getElem?_overlay _ _ _ hinside, if_pos (Nat.le_add_right _ _),
    Nat.add_sub_cancel_left, getElem?_take_registers m.v hk]
  rfl

namespace Saved

variable {x : Nibble} {now : Machine}

theorem through {operations : List Operation} (hsaved : m.Saved x now.ram)
    (hspares : now.spares m.i.toNat (x.val + 1) operations) : m.Saved x (now.through operations).ram := by
  intro k hk
  have hle : k.val ≤ x.val := hk
  rw [getElem?_through hspares (Nat.le_add_right _ _) (by omega)]
  exact hsaved k hk

/-- Registers that have been saved are loaded back, and the others stay as they are. -/
theorem load (hsaved : m.Saved x now.ram) (hroom : m.i.toNat + (x.val + 1) ≤ 4096) (hindex : now.i = m.i) :
    (now.exec (.load x)).2 = .advanced ∧ (∀ k, k ≤ x → (now.exec (.load x)).1.v[k] = m.v[k]) ∧
      ∀ k, x < k → (now.exec (.load x)).1.v[k] = now.v[k] := by
  obtain ⟨data, hread⟩ : ∃ data, now.ram.read now.i (x.val + 1) = .ok data :=
    ⟨_, dif_pos (hindex.symm ▸ hroom)⟩
  have hcell (k : Nibble) : data[k.val]? =
      if k.val < x.val + 1 then now.ram.bytes[m.i.toNat + k.val]? else none := by
    rw [Ram.getElem?_of_read hread, hindex]
  rw [exec_load hread]
  refine ⟨rfl, fun k hk => ?_, fun k hk => ?_⟩
  · have hle : k.val < x.val + 1 := Nat.lt_succ_of_le hk
    show (loaded now.v data)[k] = m.v[k]
    rw [getElem_loaded, hcell, if_pos hle, hsaved k hk, Option.getD_some]
  · have hlt : ¬ k.val < x.val + 1 := Nat.not_lt_of_le hk
    show (loaded now.v data)[k] = now.v[k]
    rw [getElem_loaded, hcell, if_neg hlt, Option.getD_none]

end Saved

/-- The registers that a load has filled hold what it has read. -/
theorem take_loaded (v : Vector UInt8 16) {x : Nibble} {data : List UInt8} (hlength : data.length = x.val + 1) :
    (loaded v data).toList.take (x.val + 1) = data := by
  have hroom := x.isLt
  apply List.ext_getElem
  · rw [List.length_take, Vector.length_toList, hlength]
    omega
  · intro k hk hdata
    have hk' : k < 16 := by omega
    rw [List.getElem_take, Vector.getElem_toList]
    show (loaded v data)[(⟨k, hk'⟩ : Nibble)] = data[k]
    rw [getElem_loaded, List.getElem?_eq_getElem hdata, Option.getD_some]

/-- A store right after a load writes back what the load has read. -/
theorem store_after_load (m : Machine) (x : Nibble) :
    ((m.exec (.load x)).1.exec (.store x)).1.ram = m.ram := by
  by_cases hroom : m.i.toNat + (x.val + 1) ≤ 4096
  · obtain ⟨data, hread⟩ : ∃ data, m.ram.read m.i (x.val + 1) = .ok data := ⟨_, dif_pos hroom⟩
    have hstored := exec_store (m := { m with pc := m.pc + 2, v := loaded m.v data }) hroom
    rw [exec_load hread]
    dsimp only at hstored ⊢
    rw [hstored, take_loaded m.v (Ram.length_of_read hread), Ram.overlay_of_read hread]
  · have hpast : 4096 < m.i.toNat + (x.val + 1) := Nat.lt_of_not_le hroom
    rw [exec_of_blocks (.load x hpast), exec_of_blocks (.store x hpast)]

/-- An instruction that does not set the index leaves it alone, whether it faults or not. -/
theorem exec_index (m : Machine) {instruction : Instruction} (hindexes : instruction.indexes = false) :
    (m.exec instruction).1.i = m.i := by
  by_cases hfault : ∃ f, m.Blocks m.pc instruction f
  · obtain ⟨f, hblocks⟩ := hfault
    rw [exec_of_blocks hblocks]
  · rw [exec_of_not_blocks fun f hblocks => hfault ⟨f, hblocks⟩]
    exact (Footprint.perform { m with pc := m.pc + 2 } m.pc instruction).index hindexes

/-- Registers that have been stored are loaded back as they were, and no others with them, whatever has been
done in between, if that wrote nothing over them and has left the index where it was. A store right after a
load changes nothing in memory, and neither changes the index. -/
theorem registers_saved (m : Machine) (x : Nibble) :
    (m.i.toNat + x.val + 1 ≤ 4096 →
      (m.exec (.store x)).2 = .advanced ∧
        ∀ operations, (m.exec (.store x)).1.spares m.i.toNat (x.val + 1) operations →
          let now := (m.exec (.store x)).1.through operations
          now.i = m.i →
            (now.exec (.load x)).2 = .advanced ∧
              (∀ k, k ≤ x → (now.exec (.load x)).1.v[k] = m.v[k]) ∧
              ∀ k, x < k → (now.exec (.load x)).1.v[k] = now.v[k]) ∧
      ((m.exec (.load x)).1.exec (.store x)).1.ram = m.ram ∧
      (m.exec (.store x)).1.i = m.i ∧ (m.exec (.load x)).1.i = m.i := by
  refine ⟨fun hroom => ⟨?_, ?_⟩, m.store_after_load x, m.exec_index rfl, m.exec_index rfl⟩
  · rw [exec_store hroom]
  · intro operations hspares now hindex
    exact ((saved_store hroom).through hspares).load hroom hindex

/-- A machine with registers to save in memory, right behind three other bytes. -/
def burdened : Machine :=
  { holding [] with i := 3, v := Vector.ofFn fun k => UInt8.ofNat (k.val + 100) }

/-- Work that uses up the registers, and writes the bytes below those that have been saved. -/
def work : List Operation :=
  [.exec (.setByte 3 1), .exec (.setByte 9 9), .act .tick, .exec (.setIndex 0), .exec (.decimal 0),
    .exec (.setIndex 3), .exec .ret]

theorem burdened_restored :
    let now := (burdened.exec (.store 3)).1.through work
    now.ram.bytes[0]? = some 1 ∧ now.v[(3 : Nibble)] = 1 ∧
      (now.exec (.load 3)).1.v[(3 : Nibble)] = 103 ∧ (now.exec (.load 3)).1.v[(9 : Nibble)] = 9 := by
  intro now
  have hroom : burdened.i.toNat + (3 : Nibble).val + 1 ≤ 4096 := by decide
  obtain ⟨hsaved, -⟩ := registers_saved burdened 3
  obtain ⟨-, hrestored, hothers⟩ := (hsaved hroom).2 work (by decide +kernel) (by decide +kernel)
  refine ⟨by decide +kernel, by decide +kernel, ?_, ?_⟩
  · exact (hrestored 3 (by decide)).trans (by decide +kernel)
  · exact (hothers 9 (by decide)).trans (by decide +kernel)

end Chip8Console.Machine
