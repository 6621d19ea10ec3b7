import Chip8Console.Nibble

/-!
# Random words

The machine's randomness is the ChaCha20 keystream: word `n` is word `n mod 16` of block `n / 16`
under a key of eight words, a 64-bit block counter and a zero nonce. A stream is its key and how
many words have been drawn, so drawing a word moves it on by one and nothing moves it back.

A stream can be made from a 64-bit seed, which a linear congruence stretches to the eight words.
-/

namespace Chip8Console

structure Keystream where
  key : Vector UInt32 8
  /-- How many words have been drawn. -/
  drawn : Nat
  deriving DecidableEq

namespace Keystream

def rotateLeft (x n : UInt32) : UInt32 := (x <<< n) ||| (x >>> (32 - n))

def rotateRight (x n : UInt32) : UInt32 := (x >>> n) ||| (x <<< (32 - n))

abbrev Block := Vector UInt32 16

def quarterRound (s : Block) (a b c d : Nibble) : Block :=
  let s := Nibble.put s a (s[a] + s[b])
  let s := Nibble.put s d (rotateLeft (s[d] ^^^ s[a]) 16)
  let s := Nibble.put s c (s[c] + s[d])
  let s := Nibble.put s b (rotateLeft (s[b] ^^^ s[c]) 12)
  let s := Nibble.put s a (s[a] + s[b])
  let s := Nibble.put s d (rotateLeft (s[d] ^^^ s[a]) 8)
  let s := Nibble.put s c (s[c] + s[d])
  Nibble.put s b (rotateLeft (s[b] ^^^ s[c]) 7)

/-- A round over the columns and one over the diagonals. -/
def doubleRound (s : Block) : Block :=
  let s := quarterRound s 0 4 8 12
  let s := quarterRound s 1 5 9 13
  let s := quarterRound s 2 6 10 14
  let s := quarterRound s 3 7 11 15
  let s := quarterRound s 0 5 10 15
  let s := quarterRound s 1 6 11 12
  let s := quarterRound s 2 7 8 13
  quarterRound s 3 4 9 14

/-- The block before the rounds: four constants, the key, the counter, and a zero nonce. -/
def initial (key : Vector UInt32 8) (counter : Nat) : Block :=
  #v[0x61707865, 0x3320646e, 0x79622d32, 0x6b206574,
    key[0], key[1], key[2], key[3], key[4], key[5], key[6], key[7],
    UInt32.ofNat counter, UInt32.ofNat (counter / 4294967296), 0, 0]

def block (key : Vector UInt32 8) (counter : Nat) : Block :=
  let start := initial key counter
  let mixed := Nat.repeat doubleRound 10 start
  Vector.ofFn fun k => mixed[k] + start[k]

/-- Word `n` of the keystream of a key. -/
def word (key : Vector UInt32 8) (n : Nat) : UInt32 :=
  (block key (n / 16))[n % 16]

/-- The next word, and the stream after it. -/
def next (s : Keystream) : UInt32 × Keystream :=
  (word s.key s.drawn, { s with drawn := s.drawn + 1 })

/-- One step of the congruence that stretches a seed. -/
def stretch (s : UInt64) : UInt64 := s * 6364136223846793005 + 11634580027462260723

/-- The word that a state of the congruence gives. -/
def output (s : UInt64) : UInt32 :=
  rotateRight (((s >>> 18) ^^^ s) >>> 27).toUInt32 (s >>> 59).toUInt32

def ofSeed (seed : UInt64) : Keystream :=
  ⟨Vector.ofFn fun k => output (Nat.repeat stretch (k.val + 1) seed), 0⟩

end Keystream

end Chip8Console
