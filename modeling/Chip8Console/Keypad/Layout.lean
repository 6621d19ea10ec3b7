import Chip8Console.Keypad.Keys

/-!
# Keyboard layouts

A layout pairs sixteen characters with the sixteen keys of the keypad, each exactly once. A typed
character is looked up in lower case; the characters of the pairs are taken as they are, so a
capital letter in a layout is never found.
-/

namespace Chip8Console

structure Layout where
  pairs : Vector (Char × Nibble) 16
  chars_nodup : (pairs.toList.map Prod.fst).Nodup
  keys_nodup : (pairs.toList.map Prod.snd).Nodup

namespace Layout

/-- The layout of the given pairs, if every key number is a key, none comes twice, and no character
comes twice. -/
def ofPairs? (pairs : Vector (Char × UInt8) 16) : Option Layout :=
  let named := pairs.map fun (c, k) => (c, Keys.named k)
  if pairs.toList.all fun (_, k) => k < 16 then
    if h : (named.toList.map Prod.fst).Nodup ∧ (named.toList.map Prod.snd).Nodup then
      some ⟨named, h.1, h.2⟩
    else none
  else none

/-- The left-hand side of a keyboard with letters in the usual places:
four rows `1 2 3 4`, `q w e r`, `a s d f`, `z x c v` for the four rows of the keypad. -/
def conventional : Layout where
  pairs := #v[('x', 0x0), ('1', 0x1), ('2', 0x2), ('3', 0x3), ('q', 0x4), ('w', 0x5), ('e', 0x6),
    ('a', 0x7), ('s', 0x8), ('d', 0x9), ('z', 0xA), ('c', 0xB), ('4', 0xC), ('r', 0xD), ('f', 0xE),
    ('v', 0xF)]
  chars_nodup := by decide
  keys_nodup := by decide

/-- The keypad key of a typed character. -/
def keyOf? (layout : Layout) (c : Char) : Option Nibble :=
  (layout.pairs.toList.find? fun pair => pair.1 == c.toLower).map Prod.snd

/-- The character of a keypad key. -/
def charOf (layout : Layout) (k : Nibble) : Char :=
  ((layout.pairs.toList.find? fun pair => pair.2 == k).map Prod.fst).getD '\x00'

end Layout

end Chip8Console
