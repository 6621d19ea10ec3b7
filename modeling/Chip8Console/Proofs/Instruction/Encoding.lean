import Chip8Console.Proofs.Instruction.Fields
import Mathlib.Logic.Function.Basic

/-!
# Patterns of words

Every instruction form has a pattern, which fixes the class of a word and perhaps its lowest nibble, its lower
byte or all of it, and leaves the rest to the operands. A word that fits a pattern reads as the form of that
pattern, so no word fits two of them, and one that fits none is unknown. Reading a word and writing it back
gives the same word; writing an instruction and reading it back gives the same instruction, unless it claims
that a word is unknown that fits a pattern.
-/

namespace Chip8Console

namespace Word

variable {w : Word} {c : Nibble}

/-- The word of a class that names an address. -/
def ofAddress (c : Nibble) (a : Address) : Word := UInt16.ofNat (4096 * c.val + a.val)

/-- The word of a class that names a register and a byte. -/
def ofByte (c x : Nibble) (k : UInt8) : Word := UInt16.ofNat (4096 * c.val + 256 * x.val + k.toNat)

theorem toNat_ofAddress (c : Nibble) (a : Address) : (ofAddress c a).toNat = 4096 * c.val + a.val := by
  have hword : 4096 * c.val + a.val < 65536 := by omega
  exact UInt16.toNat_ofNat_of_lt' hword

theorem toNat_ofByte (c x : Nibble) (k : UInt8) :
    (ofByte c x k).toNat = 4096 * c.val + 256 * x.val + k.toNat := by
  have hbyte : k.toNat < 256 := k.toNat_lt
  have hword : 4096 * c.val + 256 * x.val + k.toNat < 65536 := by omega
  exact UInt16.toNat_ofNat_of_lt' hword

theorem top_ofAddress (c : Nibble) (a : Address) : (ofAddress c a).top = c := by
  apply Fin.ext
  show (ofAddress c a).toNat / 4096 = c.val
  rw [toNat_ofAddress]
  omega

theorem address_ofAddress (c : Nibble) (a : Address) : (ofAddress c a).address = a := by
  apply Fin.ext
  show (ofAddress c a).toNat % 4096 = a.val
  rw [toNat_ofAddress]
  omega

theorem top_ofByte (c x : Nibble) (k : UInt8) : (ofByte c x k).top = c := by
  have hbyte : k.toNat < 256 := k.toNat_lt
  apply Fin.ext
  show (ofByte c x k).toNat / 4096 = c.val
  rw [toNat_ofByte]
  omega

theorem x_ofByte (c x : Nibble) (k : UInt8) : (ofByte c x k).x = x := by
  have hbyte : k.toNat < 256 := k.toNat_lt
  apply Fin.ext
  show (ofByte c x k).toNat / 256 % 16 = x.val
  rw [toNat_ofByte]
  omega

theorem byte_ofByte (c x : Nibble) (k : UInt8) : (ofByte c x k).byte = k := by
  have hbyte : k.toNat < 256 := k.toNat_lt
  have hlow : (ofByte c x k).toNat % 256 = k.toNat := by
    rw [toNat_ofByte]
    omega
  rw [byte, hlow, UInt8.ofNat_toNat]

theorem toNat_byte (w : Word) : w.byte.toNat = w.toNat % 256 :=
  UInt8.toNat_ofNat_of_lt' (Nat.mod_lt w.toNat (by decide))

/-! A word is made of its own fields. -/

theorem ofAddress_fields (htop : w.top = c) : ofAddress c w.address = w := by
  subst htop
  apply UInt16.toNat_inj.1
  rw [toNat_ofAddress]
  exact Nat.div_add_mod w.toNat 4096

theorem ofByte_fields {k : UInt8} (htop : w.top = c) (hbyte : w.byte = k) : ofByte c w.x k = w := by
  subst htop hbyte
  apply UInt16.toNat_inj.1
  rw [toNat_ofByte, toNat_byte]
  show 4096 * (w.toNat / 4096) + 256 * (w.toNat / 256 % 16) + w.toNat % 256 = w.toNat
  omega

theorem ofNibbles_fields {d : Nibble} (htop : w.top = c) (hlow : w.low = d) :
    ofNibbles c w.x w.y d = w := by
  subst htop hlow
  apply UInt16.toNat_inj.1
  rw [toNat_ofNibbles]
  show 4096 * (w.toNat / 4096) + 256 * (w.toNat / 256 % 16) + 16 * (w.toNat / 16 % 16) + w.toNat % 16 =
    w.toNat
  omega

end Word

/-- What the words of a form have in common. -/
inductive Pattern where
  /-- All of it is fixed, as in `00E0`. -/
  | whole (w : Word)
  /-- `1NNN`: a class with an address -/
  | address (c : Nibble)
  /-- `3XKK`: a class with a register and a byte -/
  | byte (c : Nibble)
  /-- `8XY4`: a class with two registers and a fixed nibble -/
  | registers (c low : Nibble)
  /-- `DXYN`: a class with two registers and a nibble -/
  | nibbles (c : Nibble)
  /-- `FX65`: a class with a register and a fixed byte -/
  | register (c : Nibble) (k : UInt8)
  deriving DecidableEq

/-- Whether a word is one of those with the pattern. -/
def Pattern.Fits (w : Word) : Pattern → Prop
  | whole v => w = v
  | address c | byte c | nibbles c => w.top = c
  | registers c low => w.top = c ∧ w.low = low
  | register c k => w.top = c ∧ w.byte = k

def patterns : List Pattern :=
  [.whole 0x00E0, .whole 0x00EE, .address 0x1, .address 0x2, .byte 0x3, .byte 0x4, .registers 0x5 0x0,
    .byte 0x6, .byte 0x7, .registers 0x8 0x0, .registers 0x8 0x1, .registers 0x8 0x2, .registers 0x8 0x3,
    .registers 0x8 0x4, .registers 0x8 0x5, .registers 0x8 0x6, .registers 0x8 0x7, .registers 0x8 0xE,
    .registers 0x9 0x0, .address 0xA, .address 0xB, .byte 0xC, .nibbles 0xD, .register 0xE 0x9E,
    .register 0xE 0xA1, .register 0xF 0x07, .register 0xF 0x0A, .register 0xF 0x15, .register 0xF 0x18,
    .register 0xF 0x1E, .register 0xF 0x29, .register 0xF 0x33, .register 0xF 0x55, .register 0xF 0x65]

def Word.Listed (w : Word) : Prop := ∃ p ∈ patterns, p.Fits w

namespace Instruction

variable {w : Word} {p : Pattern} {i : Instruction}

/-- The pattern of the form; none for an unknown instruction. -/
def pattern? : Instruction → Option Pattern
  | clear => some (.whole 0x00E0)
  | ret => some (.whole 0x00EE)
  | jump _ => some (.address 0x1)
  | call _ => some (.address 0x2)
  | skipEqByte _ _ => some (.byte 0x3)
  | skipNeByte _ _ => some (.byte 0x4)
  | skipEq _ _ => some (.registers 0x5 0x0)
  | setByte _ _ => some (.byte 0x6)
  | addByte _ _ => some (.byte 0x7)
  | copy _ _ => some (.registers 0x8 0x0)
  | or _ _ => some (.registers 0x8 0x1)
  | and _ _ => some (.registers 0x8 0x2)
  | xor _ _ => some (.registers 0x8 0x3)
  | add _ _ => some (.registers 0x8 0x4)
  | sub _ _ => some (.registers 0x8 0x5)
  | shiftRight _ _ => some (.registers 0x8 0x6)
  | subFrom _ _ => some (.registers 0x8 0x7)
  | shiftLeft _ _ => some (.registers 0x8 0xE)
  | skipNe _ _ => some (.registers 0x9 0x0)
  | setIndex _ => some (.address 0xA)
  | jumpOffset _ => some (.address 0xB)
  | random _ _ => some (.byte 0xC)
  | draw _ _ _ => some (.nibbles 0xD)
  | skipPressed _ => some (.register 0xE 0x9E)
  | skipReleased _ => some (.register 0xE 0xA1)
  | readDelay _ => some (.register 0xF 0x07)
  | awaitKey _ => some (.register 0xF 0x0A)
  | setDelay _ => some (.register 0xF 0x15)
  | setSound _ => some (.register 0xF 0x18)
  | addIndex _ => some (.register 0xF 0x1E)
  | glyph _ => some (.register 0xF 0x29)
  | decimal _ => some (.register 0xF 0x33)
  | store _ => some (.register 0xF 0x55)
  | load _ => some (.register 0xF 0x65)
  | unknown _ => none

theorem mem_patterns_of_pattern? (hp : i.pattern? = some p) : p ∈ patterns := by
  cases i with
  | unknown w => exact absurd hp (Option.some_ne_none p).symm
  | _ =>
    cases hp
    decide

/-! What the words of the other classes read as. -/

theorem ofWord_ofAddress (a : Address) :
    ofWord (.ofAddress 0x1 a) = .jump a ∧ ofWord (.ofAddress 0x2 a) = .call a ∧
      ofWord (.ofAddress 0xA a) = .setIndex a ∧ ofWord (.ofAddress 0xB a) = .jumpOffset a := by
  simp only [ofWord, Word.top_ofAddress, Word.address_ofAddress]
  exact ⟨rfl, rfl, rfl, rfl⟩

theorem ofWord_ofByte (x : Nibble) (k : UInt8) :
    ofWord (.ofByte 0x3 x k) = .skipEqByte x k ∧ ofWord (.ofByte 0x4 x k) = .skipNeByte x k ∧
      ofWord (.ofByte 0x6 x k) = .setByte x k ∧ ofWord (.ofByte 0x7 x k) = .addByte x k ∧
      ofWord (.ofByte 0xC x k) = .random x k := by
  simp only [ofWord, Word.top_ofByte, Word.x_ofByte, Word.byte_ofByte]
  exact ⟨rfl, rfl, rfl, rfl, rfl⟩

theorem ofWord_skip (x y : Nibble) :
    ofWord (.ofNibbles 0x5 x y 0x0) = .skipEq x y ∧ ofWord (.ofNibbles 0x9 x y 0x0) = .skipNe x y := by
  simp only [ofWord, Word.top_ofNibbles, Word.x_ofNibbles, Word.y_ofNibbles, Word.low_ofNibbles]
  exact ⟨rfl, rfl⟩

theorem ofWord_draw (x y n : Nibble) : ofWord (.ofNibbles 0xD x y n) = .draw x y n := by
  simp only [ofWord, Word.top_ofNibbles, Word.x_ofNibbles, Word.y_ofNibbles, Word.low_ofNibbles]
  rfl

theorem ofWord_fourteen (x : Nibble) :
    ofWord (.ofByte 0xE x 0x9E) = .skipPressed x ∧ ofWord (.ofByte 0xE x 0xA1) = .skipReleased x := by
  simp only [ofWord, Word.top_ofByte, Word.x_ofByte, Word.byte_ofByte]
  exact ⟨rfl, rfl⟩

theorem ofWord_fifteen (x : Nibble) :
    ofWord (.ofByte 0xF x 0x07) = .readDelay x ∧ ofWord (.ofByte 0xF x 0x0A) = .awaitKey x ∧
      ofWord (.ofByte 0xF x 0x15) = .setDelay x ∧ ofWord (.ofByte 0xF x 0x18) = .setSound x ∧
      ofWord (.ofByte 0xF x 0x1E) = .addIndex x ∧ ofWord (.ofByte 0xF x 0x29) = .glyph x ∧
      ofWord (.ofByte 0xF x 0x33) = .decimal x ∧ ofWord (.ofByte 0xF x 0x55) = .store x ∧
      ofWord (.ofByte 0xF x 0x65) = .load x := by
  simp only [ofWord, Word.top_ofByte, Word.x_ofByte, Word.byte_ofByte]
  exact ⟨rfl, rfl, rfl, rfl, rfl, rfl, rfl, rfl, rfl⟩

theorem ofWord_toWord_of_pattern? (hp : i.pattern? = some p) : ofWord i.toWord = i := by
  cases i with
  | clear | ret => rfl
  | jump a | call a | setIndex a | jumpOffset a =>
    obtain ⟨hjump, hcall, hsetIndex, hjumpOffset⟩ := ofWord_ofAddress a
    assumption
  | skipEqByte x k | skipNeByte x k | setByte x k | addByte x k | random x k =>
    obtain ⟨hskipEq, hskipNe, hset, hadd, hrandom⟩ := ofWord_ofByte x k
    assumption
  | skipEq x y | skipNe x y =>
    obtain ⟨hskipEq, hskipNe⟩ := ofWord_skip x y
    assumption
  | copy x y | or x y | and x y | xor x y | add x y | sub x y | shiftRight x y | subFrom x y
  | shiftLeft x y =>
    obtain ⟨hcopy, hor, hand, hxor, hadd, hsub, hright, hfrom, hleft⟩ := ofWord_eight x y
    assumption
  | draw x y n => exact ofWord_draw x y n
  | skipPressed x | skipReleased x =>
    obtain ⟨hpressed, hreleased⟩ := ofWord_fourteen x
    assumption
  | readDelay x | awaitKey x | setDelay x | setSound x | addIndex x | glyph x | decimal x | store x
  | load x =>
    obtain ⟨hread, hawait, hdelay, hsound, hadd, hglyph, hdecimal, hstore, hload⟩ := ofWord_fifteen x
    assumption
  | unknown w => exact absurd hp (Option.some_ne_none p).symm

/-- A word that fits a pattern is an instruction of that form, written out. -/
theorem exists_of_fits (hp : p ∈ patterns) (hfits : p.Fits w) :
    ∃ i : Instruction, i.pattern? = some p ∧ i.toWord = w := by
  -- A pattern fixes fields of the word, and the list says to what; the form takes its operands from the others.
  cases p with
  | whole v =>
    obtain rfl : w = v := hfits
    have hv : w = 0x00E0 ∨ w = 0x00EE := by simpa [patterns] using hp
    rcases hv with rfl | rfl
    exacts [⟨clear, rfl, rfl⟩, ⟨ret, rfl, rfl⟩]
  | address c =>
    have hword := Word.ofAddress_fields hfits
    have hc : c = 0x1 ∨ c = 0x2 ∨ c = 0xA ∨ c = 0xB := by simpa [patterns] using hp
    rcases hc with rfl | rfl | rfl | rfl
    exacts [⟨jump _, rfl, hword⟩, ⟨call _, rfl, hword⟩, ⟨setIndex _, rfl, hword⟩,
      ⟨jumpOffset _, rfl, hword⟩]
  | byte c =>
    have hword := Word.ofByte_fields hfits rfl
    have hc : c = 0x3 ∨ c = 0x4 ∨ c = 0x6 ∨ c = 0x7 ∨ c = 0xC := by simpa [patterns] using hp
    rcases hc with rfl | rfl | rfl | rfl | rfl
    exacts [⟨skipEqByte _ _, rfl, hword⟩, ⟨skipNeByte _ _, rfl, hword⟩, ⟨setByte _ _, rfl, hword⟩,
      ⟨addByte _ _, rfl, hword⟩, ⟨random _ _, rfl, hword⟩]
  | registers c low =>
    have hword := Word.ofNibbles_fields hfits.1 hfits.2
    have hc : c = 0x5 ∧ low = 0x0 ∨ c = 0x8 ∧ low = 0x0 ∨ c = 0x8 ∧ low = 0x1 ∨ c = 0x8 ∧ low = 0x2 ∨
        c = 0x8 ∧ low = 0x3 ∨ c = 0x8 ∧ low = 0x4 ∨ c = 0x8 ∧ low = 0x5 ∨ c = 0x8 ∧ low = 0x6 ∨
        c = 0x8 ∧ low = 0x7 ∨ c = 0x8 ∧ low = 0xE ∨ c = 0x9 ∧ low = 0x0 := by
      simpa [patterns] using hp
    rcases hc with ⟨rfl, rfl⟩ | ⟨rfl, rfl⟩ | ⟨rfl, rfl⟩ | ⟨rfl, rfl⟩ | ⟨rfl, rfl⟩ | ⟨rfl, rfl⟩ |
      ⟨rfl, rfl⟩ | ⟨rfl, rfl⟩ | ⟨rfl, rfl⟩ | ⟨rfl, rfl⟩ | ⟨rfl, rfl⟩
    exacts [⟨skipEq _ _, rfl, hword⟩, ⟨copy _ _, rfl, hword⟩, ⟨or _ _, rfl, hword⟩, ⟨and _ _, rfl, hword⟩,
      ⟨xor _ _, rfl, hword⟩, ⟨add _ _, rfl, hword⟩, ⟨sub _ _, rfl, hword⟩, ⟨shiftRight _ _, rfl, hword⟩,
      ⟨subFrom _ _, rfl, hword⟩, ⟨shiftLeft _ _, rfl, hword⟩, ⟨skipNe _ _, rfl, hword⟩]
  | nibbles c =>
    obtain rfl : c = 0xD := by simpa [patterns] using hp
    exact ⟨draw _ _ _, rfl, Word.ofNibbles_fields hfits rfl⟩
  | register c k =>
    have hword := Word.ofByte_fields hfits.1 hfits.2
    have hc : c = 0xE ∧ k = 0x9E ∨ c = 0xE ∧ k = 0xA1 ∨ c = 0xF ∧ k = 0x07 ∨ c = 0xF ∧ k = 0x0A ∨
        c = 0xF ∧ k = 0x15 ∨ c = 0xF ∧ k = 0x18 ∨ c = 0xF ∧ k = 0x1E ∨ c = 0xF ∧ k = 0x29 ∨
        c = 0xF ∧ k = 0x33 ∨ c = 0xF ∧ k = 0x55 ∨ c = 0xF ∧ k = 0x65 := by
      simpa [patterns] using hp
    rcases hc with ⟨rfl, rfl⟩ | ⟨rfl, rfl⟩ | ⟨rfl, rfl⟩ | ⟨rfl, rfl⟩ | ⟨rfl, rfl⟩ | ⟨rfl, rfl⟩ |
      ⟨rfl, rfl⟩ | ⟨rfl, rfl⟩ | ⟨rfl, rfl⟩ | ⟨rfl, rfl⟩ | ⟨rfl, rfl⟩
    exacts [⟨skipPressed _, rfl, hword⟩, ⟨skipReleased _, rfl, hword⟩, ⟨readDelay _, rfl, hword⟩,
      ⟨awaitKey _, rfl, hword⟩, ⟨setDelay _, rfl, hword⟩, ⟨setSound _, rfl, hword⟩, ⟨addIndex _, rfl, hword⟩,
      ⟨glyph _, rfl, hword⟩, ⟨decimal _, rfl, hword⟩, ⟨store _, rfl, hword⟩, ⟨load _, rfl, hword⟩]

/-- What a word reads as has a pattern that the word fits. -/
theorem fits_of_pattern? (hp : (ofWord w).pattern? = some p) : p.Fits w := by
  revert hp
  -- What is tested on the way to a form is what its pattern asks for.
  fun_cases ofWord w <;> rintro ⟨⟩ <;>
    simp only [Pattern.Fits, Fin.ext_iff, ← UInt8.toNat_inj] at * <;> and_intros <;> assumption

theorem eq_unknown_of_pattern?_eq_none (hnone : (ofWord w).pattern? = none) : ofWord w = unknown w := by
  revert hnone
  fun_cases ofWord w <;> simp [pattern?]

theorem toWord_ofWord (w : Word) : (ofWord w).toWord = w := by
  cases hp : (ofWord w).pattern? with
  | none =>
    rw [eq_unknown_of_pattern?_eq_none hp]
    rfl
  | some p =>
    obtain ⟨i, hi, rfl⟩ := exists_of_fits (mem_patterns_of_pattern? hp) (fits_of_pattern? hp)
    rw [ofWord_toWord_of_pattern? hi]

/-- The patterns tell the forms apart: a word fits just the one of the form that it reads as. -/
theorem pattern?_ofWord_iff : (ofWord w).pattern? = some p ↔ p ∈ patterns ∧ p.Fits w := by
  constructor
  · intro hp
    exact ⟨mem_patterns_of_pattern? hp, fits_of_pattern? hp⟩
  · rintro ⟨hp, hfits⟩
    obtain ⟨i, hi, rfl⟩ := exists_of_fits hp hfits
    rw [ofWord_toWord_of_pattern? hi, hi]

theorem ofWord_eq_unknown_iff : ofWord w = unknown w ↔ ¬ w.Listed := by
  constructor
  · rintro hunknown ⟨p, hp, hfits⟩
    have hpattern := pattern?_ofWord_iff.2 ⟨hp, hfits⟩
    rw [hunknown] at hpattern
    exact Option.some_ne_none p hpattern.symm
  · intro hlisted
    refine eq_unknown_of_pattern?_eq_none (Option.eq_none_iff_forall_ne_some.2 fun p hp => ?_)
    exact hlisted ⟨p, pattern?_ofWord_iff.1 hp⟩

theorem ofWord_toWord_iff (i : Instruction) :
    ofWord i.toWord = i ↔ ∀ w, i = unknown w → ¬ w.Listed := by
  cases hp : i.pattern? with
  | none =>
    obtain ⟨w, rfl⟩ : ∃ w, i = unknown w := by cases i <;> simp_all [pattern?]
    simp only [unknown.injEq, forall_eq']
    exact ofWord_eq_unknown_iff
  | some p =>
    refine iff_of_true (ofWord_toWord_of_pattern? hp) ?_
    rintro w rfl
    exact absurd hp (Option.some_ne_none p).symm

end Instruction

end Chip8Console
