/-
Module: Emblem.Raster.Picture
Purpose: Pictures of pixels, a pixel being given by its column and row, and the surfaces that they are
  painted on.
Main exports: Pixel, Pixel.clear, Pixel.ofColor, Picture, Picture.pixel?, Surface, Surface.ofSize?,
  Surface.picture?
-/
import Emblem.Color

namespace Emblem

/-- A colour and how opaque it is. -/
structure Pixel where
  red : UInt8
  green : UInt8
  blue : UInt8
  alpha : UInt8
deriving DecidableEq, Repr, Inhabited

def Pixel.clear : Pixel := ⟨0, 0, 0, 0⟩

/-- A pixel that is wholly of one colour. -/
def Pixel.ofColor (c : Color) : Pixel :=
  ⟨c.red, c.green, c.blue, 255⟩

/-- A picture: its size, and what is on each of its pixels. -/
structure Picture where
  width : Nat
  height : Nat
  /-- The pixel in a column and a row, both counted from the upper left corner. -/
  pixelAt : Nat → Nat → Pixel

/-- A pixel of a picture, if the place is on it. -/
def Picture.pixel? (p : Picture) (column row : Nat) : Option Pixel :=
  if column < p.width ∧ row < p.height then some (p.pixelAt column row) else none

/-- What a picture is painted on: so many pixels, of four octets each. -/
structure Surface where
  pixels : Nat
deriving DecidableEq, Repr

namespace Surface

/-- The greatest number of pixels in a row, so that its octets are counted by a signed 32-bit number. -/
def rowLimit : Nat := (Nat.pow 2 31 - 1) / 4

/-- A surface with one pixel for each place of a picture. There is none for an empty picture. -/
def ofSize? (width height : Nat) : Option Surface :=
  if 0 < width ∧ width ≤ rowLimit ∧ 0 < height then some ⟨width * height⟩ else none

/-- The picture on a surface, if this has the octets of all its pixels. -/
def picture? (s : Surface) (width height : Nat) (pixelAt : Nat → Nat → Pixel) : Option Picture :=
  if 4 * width * height ≤ 4 * s.pixels then some ⟨width, height, pixelAt⟩ else none

end Surface

end Emblem
