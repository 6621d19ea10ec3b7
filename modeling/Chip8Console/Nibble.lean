/-!
# Values of four bits

A nibble numbers a register, a key or a slot of the call stack. A table of sixteen entries has one
for every nibble, so neither looking one up nor putting another one there asks for a bound.
-/

namespace Chip8Console

/-- The number of a register, a key, or any other value of four bits. -/
abbrev Nibble := Fin 16

-- Numerals of nibbles take this instance in every module, whichever others are in reach; the zero is named
-- because there may be others of it too.
instance instNeZeroSixteen : @NeZero Nat Zero.ofOfNat0 16 := Nat.instNeZeroSucc

instance instGetElemNibble {α : Type} : GetElem (Vector α 16) Nibble α fun _ _ => True where
  getElem table x _ := table.get x

@[simp, grind =] theorem getElem_nibble_mk {α : Type} (table : Vector α 16) {k : Nat} (hk : k < 16) :
    table[(⟨k, hk⟩ : Nibble)] = table[k] := rfl

/-- The table with another entry for a nibble. -/
def Nibble.put {α : Type} (table : Vector α 16) (x : Nibble) (a : α) : Vector α 16 :=
  table.set x.val a x.isLt

theorem getElem_put_nibble {α : Type} (table : Vector α 16) (x y : Nibble) (a : α) :
    (Nibble.put table x a)[y] = if x = y then a else table[y] := by
  show (table.set x.val a x.isLt)[y.val] = if x = y then a else table[y.val]
  rw [Vector.getElem_set]
  simp only [Fin.ext_iff]

theorem getElem_ofFn_nibble {α : Type} (f : Nibble → α) (x : Nibble) : (Vector.ofFn f)[x] = f x := by
  show (Vector.ofFn f)[x.val] = f x
  rw [Vector.getElem_ofFn]

end Chip8Console
