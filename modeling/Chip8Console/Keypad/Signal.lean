import Chip8Console.Keypad.Key
import Chip8Console.Text.Digits

/-!
# What a terminal signals

A terminal signals that a key is struck, and, when it is asked, where its cursor is. A key without a
character, and the place of the cursor, come as an escape sequence: an escape and the letter `O`, or
an escape and a bracket, and then characters that say what it is. A sequence that says neither is
passed over.
-/

namespace Chip8Console

inductive Signal where
  | stroke (k : Keystroke)
  /-- Where the cursor is. -/
  | cursor
  deriving DecidableEq, Repr

def Signal.special (k : SpecialKey) : Signal := .stroke ⟨.special k, false⟩

def byteCount (cs : List Char) : Nat := cs.foldr (fun c count => c.utf8Size + count) 0

namespace EscapeSequence

/-- What a sequence comes to. -/
inductive Reading where
  | unfinished
  | finished (signal : Option Signal)
  deriving DecidableEq, Repr

/-- The key that a letter stands for, with or without numbers before it. -/
def arrow? : Char → Option SpecialKey
  | 'A' => some .up
  | 'B' => some .down
  | 'C' => some .right
  | 'D' => some .left
  | 'F' => some .endOfLine
  | 'H' => some .home
  | _ => none

/-- One of the four function keys that a letter stands for. -/
def function? : Char → Option SpecialKey
  | 'P' => some (.function 1)
  | 'Q' => some (.function 2)
  | 'R' => some (.function 3)
  | 'S' => some (.function 4)
  | _ => none

/-- The key with a number. -/
def numbered? (n : Nat) : Option SpecialKey :=
  if n = 1 ∨ n = 7 then some .home
  else if n = 2 then some .insert
  else if n = 3 then some .delete
  else if n = 4 ∨ n = 8 then some .endOfLine
  else if n = 5 then some .pageUp
  else if n = 6 then some .pageDown
  else if 11 ≤ n ∧ n ≤ 15 then some (.function (UInt8.ofNat (n - 10)))
  else if 17 ≤ n ∧ n ≤ 21 then some (.function (UInt8.ofNat (n - 11)))
  else if 23 ≤ n ∧ n ≤ 26 then some (.function (UInt8.ofNat (n - 12)))
  else if 28 ≤ n ∧ n ≤ 29 then some (.function (UInt8.ofNat (n - 15)))
  else if 31 ≤ n ∧ n ≤ 34 then some (.function (UInt8.ofNat (n - 17)))
  else none

/-- The characters before the first semicolon. -/
def field (cs : List Char) : List Char := cs.takeWhile (· != ';')

/-- The characters after the first semicolon. -/
def afterField (cs : List Char) : List Char := (cs.dropWhile (· != ';')).tail

/-- Whether these characters are a row or a column: digits after at most one plus sign, with a value
of 16 bits. -/
def isCoordinate (cs : List Char) : Bool :=
  let digits := if cs.head? = some '+' then cs.tail else cs
  (Digits.value? digits).any (· < 65536)

/-- Whether the first two fields are a row and a column. -/
def isPlace (cs : List Char) : Bool :=
  isCoordinate (field cs) && isCoordinate (field (afterField cs))

/-- What a sequence that begins with a digit signals, from the characters before the last one and the
last one. With a tilde at its end it names a key by the number in the first field, with an `R` it is
the place of the cursor, and with an `M` it is about the mouse. -/
def closed (body : List Char) (last : Char) : Option Signal :=
  if last = '~' then ((Digits.value? (field body)).bind numbered?).map .special
  else if last = 'R' then if isPlace body then some .cursor else none
  else if last = 'M' then none
  else ((arrow? last).or (function? last)).map .special

/-- Whether a character ends a sequence that begins with a digit. -/
def closes (c : Char) : Bool := '@' ≤ c && c ≤ '~'

/-- Reads the characters after an escape and a bracket. -/
def read : List Char → Reading
  | [] => .unfinished
  | ['['] => .unfinished
  | '[' :: c :: _ =>
    .finished (if 'A' ≤ c ∧ c ≤ 'E' then some (.special (.function (UInt8.ofNat (c.toNat - 64))))
      else none)
  | '<' :: cs =>
    if cs.getLast? = some 'm' ∨ cs.getLast? = some 'M' then .finished none else .unfinished
  | 'M' :: cs => if byteCount cs < 3 then .unfinished else .finished none
  | 'Z' :: _ => .finished (some (.special .backTab))
  | c :: cs =>
    if c.isDigit then
      match cs.getLast? with
      | none => .unfinished
      | some last =>
        if closes last then .finished (closed (c :: cs.dropLast) last) else .unfinished
    else .finished ((arrow? c).map .special)

end EscapeSequence

end Chip8Console
