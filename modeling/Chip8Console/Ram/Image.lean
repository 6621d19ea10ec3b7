import Chip8Console.Ram.ByteSource
import Chip8Console.Ram.Font

/-!
# Program images

Loading puts a program image into memory at the load address, zeroes everything above it, and lays
the font down again. An image is read one byte past the largest size, so that a larger one shows;
its rest is then counted but not kept. When an image cannot be read or is too large, memory stays
as it was.

The largest size is that of the usual load address, 0x200. At a higher address an image within that
size can still run over the end of memory: loading then ends in `overrun`, after the memory above
the address has been zeroed.
-/

namespace Chip8Console

inductive ImageError where
  | unreadable (reason : String)
  | tooLarge (size max : Nat)
  deriving DecidableEq, Repr

namespace ImageError

def message : ImageError → String
  | unreadable reason => "couldn't read program image: " ++ reason
  | tooLarge size max =>
    "program image is too large (" ++ toString size ++ " bytes), max size is "
      ++ toString max ++ " bytes"

def form : ImageError → String
  | unreadable reason => "Io(" ++ reason ++ ")"
  | tooLarge size max =>
    "TooLarge \x7b size: " ++ toString size ++ ", max: " ++ toString max ++ " \x7d"

end ImageError

/-- How loading an image ends. -/
inductive Loading where
  | done (len : Nat)
  | refused (e : ImageError)
  | overrun
  deriving DecidableEq, Repr

namespace Image

def maxBytes : Nat := 3584

/-- The image a source holds, if it can be read and is not too large. -/
def ofSource (source : ByteSource) : Except ImageError (List UInt8) :=
  match source.readUpTo (maxBytes + 1) with
  | .error reason => .error (.unreadable reason)
  | .ok (data, rest) =>
    if maxBytes < data.length then
      match rest.drain data.length with
      | .error reason => .error (.unreadable reason)
      | .ok size => .error (.tooLarge size maxBytes)
    else .ok data

end Image

namespace Ram

/-- The bytes with zeros from `start` on. -/
def zeroFrom (bytes : Vector UInt8 4096) (start : Nat) : Vector UInt8 4096 :=
  Vector.ofFn fun k => if start ≤ k.val then 0 else bytes[k]

def install (ram : Ram) (image : List UInt8) : Ram × Loading :=
  let cleared := zeroFrom ram.bytes ram.loadAt.toNat
  if ram.loadAt.toNat + image.length ≤ 4096 then
    ({ ram with bytes := Font.install (overlay cleared ram.loadAt.toNat image) },
      .done image.length)
  else ({ ram with bytes := cleared }, .overrun)

def load (ram : Ram) (source : ByteSource) : Ram × Loading :=
  match Image.ofSource source with
  | .error e => (ram, .refused e)
  | .ok image => ram.install image

end Ram

end Chip8Console
