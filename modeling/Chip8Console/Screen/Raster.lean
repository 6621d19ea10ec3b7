import Chip8Console.Screen.Precision

/-!
# Resolutions and bitplanes

A picture of `width` by `height` pixels comes as bytes, row by row. For drawing it is taken apart
into bitplanes: the places of all pixels with one value. Rows count downward in the picture and
upward where it is drawn, so a place is a column and the negative of a row.
-/

namespace Chip8Console

/-- The number of columns and of rows. -/
structure Raster where
  width : UInt64
  height : UInt64
  deriving DecidableEq, Repr

namespace Raster

/-- How many pixels there are, as a 64-bit word. -/
def size (r : Raster) : UInt64 := r.width * r.height

/-- The least and the greatest column. -/
def columnBounds (r : Raster) : Int × Int := (0, (r.width.toNat : Int) - 1)

/-- The least and the greatest place of a row. -/
def rowBounds (r : Raster) : Int × Int := (-((r.height.toNat : Int) - 1), 0)

/-- The place of a pixel, from its place in the data. -/
def place (r : Raster) (k : Nat) : Int × Int :=
  ((k % r.width.toNat : Nat), -((k / r.width.toNat : Nat) : Int))

/-- The places of the pixels with a value, in the order of the data; what lies beyond the last pixel
is left out. -/
def plane (r : Raster) (data : List UInt8) (value : UInt8) : List (Int × Int) :=
  (((data.take r.size.toNat).zipIdx).filter fun (px, _) => px == value).map
    fun (_, k) => r.place k

/-- A pair of coordinates as it is drawn. -/
def drawn (p : Int × Int) : Int × Int := (Precision.nearestInt p.1, Precision.nearestInt p.2)

/-! ## The area on a terminal -/

/-- The largest area, in cells. -/
def maxArea : Nat := 65535

/-- Width and height, cut down in proportion if their product is over the largest area. The sides
are worked out in floating point and rounded down. -/
def withinArea (width height : Nat) : Nat × Nat :=
  if maxArea < width * height then
    let aspect := width.toFloat / height.toFloat
    let short := (maxArea.toFloat / aspect).sqrt
    ((short * aspect).toUInt16.toNat, short.toUInt16.toNat)
  else (width, height)

/-- Width and height of the drawing with a border around it; sides are 16-bit words. -/
def framedSize (r : Raster) : Nat × Nat :=
  withinArea (r.width.toUInt16 + 2).toNat (r.height.toUInt16 + 2).toNat

end Raster

end Chip8Console
