import Chip8Console.Fault
import Chip8Console.Instruction.Basic

/-!
# Memory

4096 bytes. An access names a first address and a length, and it succeeds exactly when its end, as a
sum of natural numbers, is no further than the end of memory; so an empty access at 4096 succeeds.
A failing access reports what was asked for and leaves memory alone.
-/

namespace Chip8Console

structure Ram where
  bytes : Vector UInt8 4096
  /-- Where a program image goes. -/
  loadAt : UInt16
  deriving DecidableEq

namespace Ram

/-- The bytes with `data` laid over them from `start` on. -/
def overlay (bytes : Vector UInt8 4096) (start : Nat) : List UInt8 → Vector UInt8 4096
  | [] => bytes
  | b :: data => overlay (bytes.setIfInBounds start b) (start + 1) data

def read (ram : Ram) (addr : UInt16) (len : Nat) : Except Fault (List UInt8) :=
  if h : addr.toNat + len ≤ 4096 then
    .ok (List.ofFn fun k : Fin len => ram.bytes[addr.toNat + k.val])
  else .error (.outOfRange addr.toNat len)

def byte (ram : Ram) (addr : UInt16) : Except Fault UInt8 :=
  if h : addr.toNat + 1 ≤ 4096 then .ok ram.bytes[addr.toNat]
  else .error (.outOfRange addr.toNat 1)

/-- Two bytes, the high one first. -/
def word (ram : Ram) (addr : UInt16) : Except Fault Word :=
  if h : addr.toNat + 2 ≤ 4096 then
    .ok (Word.ofBytes ram.bytes[addr.toNat] ram.bytes[addr.toNat + 1])
  else .error (.outOfRange addr.toNat 2)

def write (ram : Ram) (addr : UInt16) (data : List UInt8) : Except Fault Ram :=
  if addr.toNat + data.length ≤ 4096 then
    .ok { ram with bytes := overlay ram.bytes addr.toNat data }
  else .error (.outOfRange addr.toNat data.length)

/-- Sets `len` bytes to `b`. -/
def fill (ram : Ram) (addr : UInt16) (len : Nat) (b : UInt8) : Except Fault Ram :=
  if addr.toNat + len ≤ 4096 then
    .ok { ram with bytes := overlay ram.bytes addr.toNat (List.replicate len b) }
  else .error (.outOfRange addr.toNat len)

end Ram

end Chip8Console
