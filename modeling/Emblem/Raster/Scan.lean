/-
Module: Emblem.Raster.Scan
Purpose: Turning drawings into pictures. A drawing is scaled, and every pixel shows the last shape
  that covers its centre; animations leave no trace. A pixel at the rim of a shape has one colour or
  none here, where a painter with smooth rims mixes colours: nothing that is proved about pictures is
  about their colours at a rim.
Main exports: Drawing, Drawing.ofText, Drawing.toPictureOn, Drawing.toPicture, rasterize
-/
import Emblem.Error
import Emblem.Raster.Grid
import Emblem.Raster.Picture
import Emblem.Svg.Drawing

namespace Emblem

/-- A drawing to be painted: its size, where its points lie, and its shapes from the lowest to the
topmost. -/
structure Drawing where
  width : Float32
  height : Float32
  placement : Placement
  shapes : List Shape
deriving Repr

namespace Drawing

open Svg (Element Length Sides ViewBox)

/-- The length that an attribute gives; one that it does not give is as `unset` says. -/
def length (e : Element) (name : String) (unset : Length) : Length :=
  ((e.attribute? name).bind Length.ofString?).getD unset

/-- A length of a shape beside the side that it may be a share of, unless it is too large. -/
def measure? (e : Element) (name : String) (side unset : Float) : Option Float :=
  let x := (length e name (.units unset)).resolve side
  if x.isFinite then some x else none

/-- A point of a shape, unless it is too far off. -/
def point? (e : Element) (s : Sides) (x y : String) : Option Point := do
  return ⟨← measure? e x s.width 0, ← measure? e y s.height 0⟩

/-- The colour of hexadecimal digits after their mark. -/
def hexColor? (cs : List Char) : Option Color :=
  match cs with
  | '#' :: ds =>
    if ds.all fun d => (Color.hexDigit? d).isSome then (Color.ofDigits ds).toOption else none
  | _ => none

/-- The colour that an attribute gives, which may be none; without an attribute that can be read it
is as `unset` says. -/
def paint? (e : Element) (name : String) (unset : Option Color) : Option Color :=
  match (e.attribute? name).map fun s => Text.trim s.toList with
  | some cs => if cs = "none".toList then none else (hexColor? cs).or unset
  | none => unset

/-- The shape of an element beside the sides that its lengths may be shares of. An element is not
drawn if a number of it is too large, its extent is not positive, or it has no colour; what encloses
an area is black unless it is told to be otherwise. -/
def shape? (s : Sides) (e : Element) : Option Shape := do
  if e.name = "circle" then
    let center ← point? e s "cx" "cy"
    let radius ← measure? e "r" s.diagonal 0
    let fill ← paint? e "fill" (some ⟨0, 0, 0⟩)
    if 0 < radius then some (.circle center radius fill) else none
  else if e.name = "line" then
    let source ← point? e s "x1" "y1"
    let target ← point? e s "x2" "y2"
    let width ← measure? e "stroke-width" s.diagonal 1
    let stroke ← paint? e "stroke" none
    if 0 < width then some (.line source target width stroke) else none
  else none

/-- The sides of a drawing that does not say how large it is. -/
def defaultSides : Sides := ⟨100, 100⟩

/-- Sides, which must be positive and finite. -/
def sides? (width height : Float) : Option Sides :=
  let isSide (x : Float) : Bool := decide (0 < x) && x.isFinite
  if isSide width && isSide height then some ⟨width, height⟩ else none

/-- The sides that reach as far as shapes do. -/
def reach? (shapes : List Shape) : Option Sides :=
  let far := (shapes.map fun s => s.farCorner.single).foldl Point.farthest ⟨0, 0⟩
  sides? far.x far.y

/-- The drawing that an element describes. A side that is not given is all of the view box; where
that is not given either, both sides reach as far as the shapes do. -/
def ofElement? (root : Element) : Option Drawing := do
  if root.name ≠ "svg" then none
  let box? := (root.attribute? "viewBox").bind ViewBox.ofString?
  let whole := box?.elim defaultSides ViewBox.sides
  let width := length root "width" (.share 100)
  let height := length root "height" (.share 100)
  let stated ← sides? (width.resolve whole.width) (height.resolve whole.height)
  let box := box?.getD (.ofSides stated)
  let shapes := root.children.filterMap (shape? box.sides)
  let size :=
    if box?.isNone && (width.isShare || height.isShare) then (reach? shapes).getD stated
    else stated
  return ⟨Number.narrow size.width, Number.narrow size.height, .ofViewBox box stated, shapes⟩

/-- The drawing that a text describes. -/
def ofText (text : String) : Except Error Drawing :=
  match (Element.ofText? text).bind ofElement? with
  | some d => .ok d
  | none => .error .malformedDrawing

/-- The number of pixels along a side: its scaled length rounded up, at least one. -/
def pixels (side scale : Float32) : Nat :=
  max 1 ((Number.binary32 (side * scale)).ceilWithin (Nat.pow 2 32 - 1))

/-- The shapes among the pixels of the scaled drawing, from the topmost to the lowest. -/
def patches (d : Drawing) (scale : Float32) : List Patch :=
  d.shapes.reverse.filterMap (Patch.ofShape? (d.placement.magnify (Number.widen scale)))

/-- What is on a pixel under patches, the topmost of which is the first. -/
def pixelUnder (patches : List Patch) (column row : Nat) : Pixel :=
  match patches.find? (·.paints column row) with
  | some patch => .ofColor patch.color
  | none => .clear

/-- Whether a drawing can be scaled by a factor. -/
def isScale (scale : Float32) : Bool :=
  scale.isFinite && decide (0 < scale)

/-- The picture of a scaled drawing, which must not be too large, on the surface that there is for a picture
of its size. -/
def toPictureOn (surface? : Nat → Nat → Option Surface) (d : Drawing) (scale : Float32) :
    Except Error Picture :=
  if isScale scale then
    let width := pixels d.width scale
    let height := pixels d.height scale
    if maxSide < width ∨ maxSide < height then .error (.pictureTooLarge width height)
    else
      match surface? width height with
      | none => .error .noSurface
      | some surface =>
        match surface.picture? width height (pixelUnder (d.patches scale)) with
        | none => .error .surfaceMismatch
        | some p => .ok p
  else .error (.badScale scale)

def toPicture (d : Drawing) (scale : Float32) : Except Error Picture :=
  d.toPictureOn Surface.ofSize? scale

end Drawing

/-- The picture of a drawing that is given as a text. -/
def rasterize (text : String) (scale : Float32) : Except Error Picture := do
  (← Drawing.ofText text).toPicture scale

end Emblem
