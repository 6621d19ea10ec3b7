import Chip8Console.Proofs.Ram.Overlay

/-!
# Accesses to memory

An access to memory names its first cell and how many cells it asks for. It succeeds if all of them are in
memory and otherwise does nothing, whatever it was to do with them. A write that succeeds puts a byte into
each of its cells and leaves all others alone, so after any number of accesses a cell holds what the last
one has put there, or what it held at first if none has put anything there.
-/

namespace Chip8Console.Ram

/-- Something that memory is asked for. -/
inductive Access where
  | read (addr : UInt16) (len : Nat)
  | byte (addr : UInt16)
  | word (addr : UInt16)
  | write (addr : UInt16) (data : List UInt8)
  | fill (addr : UInt16) (len : Nat) (b : UInt8)

namespace Access

def addr : Access → UInt16
  | read addr _ | byte addr | word addr | write addr _ | fill addr _ _ => addr

def len : Access → Nat
  | read _ len | fill _ len _ => len
  | byte _ => 1
  | word _ => 2
  | write _ data => data.length

def Inside (a : Access) : Prop := a.addr.toNat + a.len ≤ 4096

instance : DecidablePred Inside := fun a => inferInstanceAs (Decidable (a.addr.toNat + a.len ≤ 4096))

/-- The bytes that an access lays down from its first cell on. -/
def data : Access → List UInt8
  | read _ _ | byte _ | word _ => []
  | write _ data => data
  | fill _ len b => List.replicate len b

/-- What an access puts into a cell, if it succeeds and the cell is one of those it writes. -/
def puts? (a : Access) (k : Nat) : Option UInt8 :=
  if a.Inside ∧ a.addr.toNat ≤ k then a.data[k - a.addr.toNat]? else none

end Access

/-- The memory that an access leaves, if it succeeds. -/
def access (ram : Ram) : Access → Except Fault Ram
  | .read addr len => (ram.read addr len).map fun _ => ram
  | .byte addr => (ram.byte addr).map fun _ => ram
  | .word addr => (ram.word addr).map fun _ => ram
  | .write addr data => ram.write addr data
  | .fill addr len b => ram.fill addr len b

def accessed (ram : Ram) (a : Access) : Ram := (ram.access a).toOption.getD ram

def accessAll (ram : Ram) (accesses : List Access) : Ram := accesses.foldl accessed ram

/-- What the last of the accesses that put something into a cell has put there. -/
def lastPut? (accesses : List Access) (k : Nat) : Option UInt8 :=
  accesses.reverse.findSome? fun a => a.puts? k

variable {ram : Ram} {a : Access} {k : Nat}

/-! ### One access -/

theorem access_of_inside (ram : Ram) (h : a.Inside) :
    ram.access a = .ok { ram with bytes := overlay ram.bytes a.addr.toNat a.data } := by
  cases a with
  | read addr len => exact congrArg (Except.map fun _ => ram) (dif_pos h)
  | byte addr => exact congrArg (Except.map fun _ => ram) (dif_pos h)
  | word addr => exact congrArg (Except.map fun _ => ram) (dif_pos h)
  | write addr data => exact if_pos h
  | fill addr len b => exact if_pos h

theorem access_of_not_inside (ram : Ram) (h : ¬ a.Inside) :
    ram.access a = .error (.outOfRange a.addr.toNat a.len) := by
  cases a with
  | read addr len => exact congrArg (Except.map fun _ => ram) (dif_neg h)
  | byte addr => exact congrArg (Except.map fun _ => ram) (dif_neg h)
  | word addr => exact congrArg (Except.map fun _ => ram) (dif_neg h)
  | write addr data => exact if_neg h
  | fill addr len b => exact if_neg h

theorem access_succeeds_iff (ram : Ram) (a : Access) : (∃ next, ram.access a = .ok next) ↔ a.Inside := by
  constructor
  · rintro ⟨next, haccess⟩
    refine Decidable.byContradiction fun hnot => ?_
    rw [access_of_not_inside ram hnot] at haccess
    cases haccess
  · intro hinside
    exact ⟨_, access_of_inside ram hinside⟩

theorem accessed_of_inside (ram : Ram) (h : a.Inside) :
    ram.accessed a = { ram with bytes := overlay ram.bytes a.addr.toNat a.data } := by
  rw [accessed, access_of_inside ram h]
  rfl

theorem accessed_of_not_inside (ram : Ram) (h : ¬ a.Inside) : ram.accessed a = ram := by
  rw [accessed, access_of_not_inside ram h]
  rfl

/-- No access writes more cells than it asks for. -/
theorem Access.length_data_le (a : Access) : a.data.length ≤ a.len := by
  cases a with
  | write addr data => exact Nat.le_refl _
  | fill addr len b => exact Nat.le_of_eq List.length_replicate
  | _ => exact Nat.zero_le _

theorem Access.lt_of_puts? {b : UInt8} (h : a.puts? k = some b) : k < 4096 := by
  unfold puts? at h
  split at h
  · next hcell =>
    obtain ⟨hput, -⟩ := List.getElem?_eq_some_iff.1 h
    have hlength := a.length_data_le
    have hinside : a.addr.toNat + a.len ≤ 4096 := hcell.1
    omega
  · cases h

theorem getElem?_accessed (ram : Ram) (a : Access) (k : Nat) :
    (ram.accessed a).bytes[k]? = (a.puts? k).or ram.bytes[k]? := by
  by_cases hk : k < 4096
  · unfold Access.puts?
    by_cases hinside : a.Inside
    · rw [accessed_of_inside ram hinside, getElem?_overlay _ _ _ hk]
      by_cases hstart : a.addr.toNat ≤ k
      · rw [if_pos hstart, if_pos ⟨hinside, hstart⟩]
      · rw [if_neg hstart, if_neg fun h => hstart h.2, Option.none_or]
    · rw [accessed_of_not_inside ram hinside, if_neg fun h => hinside h.1, Option.none_or]
  · have hnone : a.puts? k = none := by
      apply Option.eq_none_iff_forall_ne_some.2
      intro b hput
      exact hk (Access.lt_of_puts? hput)
    have hpast : 4096 ≤ k := Nat.le_of_not_lt hk
    rw [hnone, Option.none_or, Vector.getElem?_eq_none hpast, Vector.getElem?_eq_none hpast]

/-! ### Lengths of 64 bits -/

/-- The end of an access in 64 bits, unless the sum wraps around. -/
def endOf? (addr : UInt16) (len : UInt64) : Option UInt64 :=
  if addr.toUInt64 + len < len then none else some (addr.toUInt64 + len)

/-- A sum of 64 bits that is checked says the same as the sum of natural numbers. -/
theorem endOf?_le_iff (addr : UInt16) (len : UInt64) :
    (endOf? addr len).any (· ≤ 4096) ↔ addr.toNat + len.toNat ≤ 4096 := by
  have haddr : addr.toNat < 65536 := addr.toNat_lt
  have hlen : len.toNat < 18446744073709551616 := len.toNat_lt
  have hsum : (addr.toUInt64 + len).toNat = (addr.toNat + len.toNat) % 18446744073709551616 := by
    rw [UInt64.toNat_add, UInt16.toNat_toUInt64]
  unfold endOf?
  split
  · next hwraps =>
    rw [UInt64.lt_iff_toNat_lt, hsum] at hwraps
    exact iff_of_false Bool.false_ne_true (by omega)
  · next hfits =>
    rw [UInt64.lt_iff_toNat_lt, hsum] at hfits
    rw [Option.any_some, decide_eq_true_iff, UInt64.le_iff_toNat_le, hsum]
    show _ ≤ 4096 ↔ _
    omega

/-! ### A sequence of accesses -/

theorem lastPut?_cons (a : Access) (accesses : List Access) (k : Nat) :
    lastPut? (a :: accesses) k = (lastPut? accesses k).or (a.puts? k) := by
  rw [lastPut?, List.reverse_cons, List.findSome?_append]
  congr 1
  cases hput : a.puts? k <;> simp [hput]

theorem getElem?_accessAll (ram : Ram) (accesses : List Access) (k : Nat) :
    (ram.accessAll accesses).bytes[k]? = (lastPut? accesses k).or ram.bytes[k]? := by
  induction accesses generalizing ram with
  | nil => rfl
  | cons a accesses ih =>
      calc
        ((ram.accessed a).accessAll accesses).bytes[k]?
            = (lastPut? accesses k).or ((ram.accessed a).bytes[k]?) := ih _
        _ = (lastPut? (a :: accesses) k).or ram.bytes[k]? := by
          rw [getElem?_accessed, lastPut?_cons, Option.or_assoc]

theorem read_accessAll (ram : Ram) (accesses : List Access) {addr : UInt16} {len : Nat}
    (hinside : addr.toNat + len ≤ 4096) :
    ∃ data, (ram.accessAll accesses).read addr len = .ok data ∧ data.length = len ∧
      ∀ j < len, data[j]? =
        (lastPut? accesses (addr.toNat + j)).or ram.bytes[addr.toNat + j]? := by
  have hread : (ram.accessAll accesses).read addr len = .ok _ := dif_pos hinside
  refine ⟨_, hread, length_of_read hread, fun j hj => ?_⟩
  rw [getElem?_of_read hread, if_pos hj, getElem?_accessAll]

/-! ### Bytes and words -/

theorem byte_eq_ok_iff {addr : UInt16} {b : UInt8} :
    ram.byte addr = .ok b ↔ ram.bytes[addr.toNat]? = some b := by
  unfold byte
  by_cases haddr : addr.toNat + 1 ≤ 4096
  · rw [dif_pos haddr, Vector.getElem?_eq_getElem haddr, Except.ok.injEq, Option.some.injEq]
  · rw [dif_neg haddr, Vector.getElem?_eq_none (by omega)]
    simp

/-- A word is the two bytes from its address on, the high one first. -/
theorem bytes_of_word {addr : UInt16} {w : Word} (h : ram.word addr = .ok w) :
    ∃ high low, ram.byte addr = .ok high ∧ ram.byte (addr + 1) = .ok low ∧
      w.toNat = 256 * high.toNat + low.toNat := by
  unfold word at h
  split at h
  · next hinside =>
    cases h
    have hnext : (addr + 1).toNat = addr.toNat + 1 := by
      rw [UInt16.toNat_add]
      exact Nat.mod_eq_of_lt (show addr.toNat + 1 < 65536 by omega)
    refine ⟨ram.bytes[addr.toNat], ram.bytes[addr.toNat + 1], ?_, ?_, ?_⟩
    · exact byte_eq_ok_iff.2 (Vector.getElem?_eq_getElem _)
    · rw [byte_eq_ok_iff, hnext]
      exact Vector.getElem?_eq_getElem _
    · have hhigh := UInt8.toNat_lt ram.bytes[addr.toNat]
      have hlow := UInt8.toNat_lt ram.bytes[addr.toNat + 1]
      exact UInt16.toNat_ofNat_of_lt' (show _ < 65536 by omega)
  · cases h

/-- Memory keeps what is written to it. An access succeeds just if it ends in memory, as a sum of natural
numbers, and a checked sum of 64 bits says the same; otherwise it faults with what it asked for and leaves
memory alone. After any accesses a read gives for each cell what the last of them to write it has put there,
or what it held at first. And a word is made of the bytes that are read at its address and at the next. -/
theorem keeps_what_is_written (ram : Ram) :
    (∀ a : Access,
      ((∃ next, ram.access a = .ok next) ↔ a.addr.toNat + a.len ≤ 4096) ∧
      (4096 < a.addr.toNat + a.len →
        ram.access a = .error (.outOfRange a.addr.toNat a.len) ∧ ram.accessed a = ram) ∧
      ∀ len : UInt64, a.len = len.toNat →
        ((∃ next, ram.access a = .ok next) ↔ (endOf? a.addr len).any (· ≤ 4096))) ∧
      (∀ (accesses : List Access) (addr : UInt16) (len : Nat), addr.toNat + len ≤ 4096 →
        ∃ data, (ram.accessAll accesses).read addr len = .ok data ∧ data.length = len ∧
          ∀ j < len, data[j]? =
            (lastPut? accesses (addr.toNat + j)).or ram.bytes[addr.toNat + j]?) ∧
      ∀ (addr : UInt16) (w : Word), ram.word addr = .ok w →
        ∃ high low, ram.byte addr = .ok high ∧ ram.byte (addr + 1) = .ok low ∧
          w.toNat = 256 * high.toNat + low.toNat := by
  refine ⟨fun a => ⟨access_succeeds_iff ram a, fun hpast => ?_, fun len hlen => ?_⟩, ?_, ?_⟩
  · have hnot : ¬ a.Inside := Nat.not_le_of_lt hpast
    exact ⟨access_of_not_inside ram hnot, accessed_of_not_inside ram hnot⟩
  · rw [endOf?_le_iff, ← hlen]
    exact access_succeeds_iff ram a
  · intro accesses addr len hinside
    exact read_accessAll ram accesses hinside
  · intro addr w hword
    exact bytes_of_word hword

/-- Behind the last cell there is room for no cells, but no further, and no length wraps around. -/
example : (Access.read 4096 0).Inside ∧ ¬ (Access.read 4097 0).Inside ∧
    ¬ (Access.read 1 0xFFFFFFFFFFFFFFFF).Inside := by
  decide

/-- Writes that overlap, one of which asks for a cell that there is not. -/
def overlapping : List Access :=
  [.write 0x300 [1, 2, 3, 4], .write 0x301 [9, 8], .write 0xFFF [5, 5], .fill 0x302 1 7, .byte 0x300]

theorem overlapping_kept :
    fresh.access (.write 0xFFF [5, 5]) = .error (.outOfRange 0xFFF 2) ∧
      ∃ data, (fresh.accessAll overlapping).read 0x300 5 = .ok data ∧ data = [1, 9, 7, 4, 0] := by
  obtain ⟨haccess, hread, -⟩ := keeps_what_is_written fresh
  obtain ⟨data, hdata, hlength, hcells⟩ := hread overlapping 0x300 5 (by decide)
  refine ⟨((haccess (.write 0xFFF [5, 5])).2.1 (by decide)).1, data, hdata, ?_⟩
  apply List.ext_getElem?
  intro j
  by_cases hj : j < 5
  · rw [hcells j hj]
    revert hj
    revert j
    decide +kernel
  · rw [List.getElem?_eq_none (by omega), List.getElem?_eq_none (by simpa using hj)]

end Chip8Console.Ram
