/-!
# Hexadecimal text

Numbers in base sixteen, most significant digit first. A number has no leading zeros of its own, and
zero is one digit; `lower` and `upper` then fill up with zeros on the left to a least width, so a
number that needs more digits than the width shows all of them.
-/

namespace Chip8Console.Hex

/-- Which letters stand for the digits above nine. -/
inductive Letters where
  | small
  | capital
  deriving DecidableEq, Repr

def digit (letters : Letters) (d : Nat) : Char :=
  if d < 10 then Char.ofNat (48 + d)
  else match letters with
    | .small => Char.ofNat (87 + d)
    | .capital => Char.ofNat (55 + d)

/-- The digits of `n`, most significant first; never empty. -/
def digits (letters : Letters) (n : Nat) : List Char :=
  if n < 16 then [digit letters n]
  else digits letters (n / 16) ++ [digit letters (n % 16)]

/-- The digits of `n` after enough zeros to make `width` characters. -/
def padded (letters : Letters) (width n : Nat) : List Char :=
  let ds := digits letters n
  List.replicate (width - ds.length) '0' ++ ds

def lower (width n : Nat) : String := String.ofList (padded .small width n)

def upper (width n : Nat) : String := String.ofList (padded .capital width n)

end Chip8Console.Hex
