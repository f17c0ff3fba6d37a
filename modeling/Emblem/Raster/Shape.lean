/-
Module: Emblem.Raster.Shape
Purpose: Shapes to be painted, where a drawing's points come to lie among the pixels, and the
  corners of the shapes there. Lines end squarely at their ends.
Main exports: Placement, Placement.place, Placement.ofViewBox, Shape, Shape.color, Shape.corners
-/
import Emblem.Color
import Emblem.Geometry
import Emblem.Svg.Length

namespace Emblem

open Number (single)

namespace Point

/-- A point held to 32 bits. -/
def single (p : Point) : Point :=
  ⟨Number.single p.x, Number.single p.y⟩

/-- A point drawn away from the origin by a factor. -/
def scale (k : Float) (p : Point) : Point :=
  ⟨k * p.x, k * p.y⟩

/-- The lower right one of the corners of the rectangle around two points. -/
def farthest (p q : Point) : Point :=
  ⟨max p.x q.x, max p.y q.y⟩

/-- The upper left one of the corners of the rectangle around two points. -/
def nearest (p q : Point) : Point :=
  ⟨min p.x q.x, min p.y q.y⟩

end Point

/-- Where a drawing's points come to lie: they are scaled, and then shifted. -/
structure Placement where
  zoom : Float
  shift : Point
deriving DecidableEq, Repr

namespace Placement

/-- The place of a point, held to 32 bits. -/
def place (l : Placement) (p : Point) : Point :=
  ((p.scale l.zoom).single + l.shift).single

/-- The placement after which all is scaled once more. -/
def magnify (k : Float) (l : Placement) : Placement :=
  ⟨single (k * l.zoom), (l.shift.scale k).single⟩

/-- The placement that shows a view box as large as it fits, in the middle of a drawing. -/
def ofViewBox (b : Svg.ViewBox) (s : Svg.Sides) : Placement :=
  let zoom := min (single (s.width / b.width)) (single (s.height / b.height))
  let shift (start length side : Float) : Float :=
    single (single (-start * zoom) + single (single (side - single (length * zoom)) / 2))
  ⟨zoom, ⟨shift b.x b.width s.width, shift b.y b.height s.height⟩⟩

end Placement

/-- A shape to be painted, in the units of its drawing. -/
inductive Shape where
  | circle (center : Point) (radius : Float) (fill : Color)
  | line (source target : Point) (width : Float) (stroke : Color)
deriving DecidableEq, Repr

namespace Shape

def color : Shape → Color
  | circle _ _ fill => fill
  | line _ _ _ stroke => stroke

/-- The lower right corner of the rectangle around a shape, whose stroke does not count. -/
def farCorner : Shape → Point
  | circle center radius _ => center + ⟨radius, radius⟩
  | line source target _ _ => source.farthest target

/-- The corners of a line, in order around it; a line without length has none. How exactly the
direction of the line is known depends on how far it is magnified. -/
def lineCorners (zoom : Float) (source target : Point) (width : Float) : List Point :=
  let along := ((target - source).single.scale zoom).single
  let length := Float.sqrt (along.x * along.x + along.y * along.y)
  let direction := (along.scale (single (1 / length))).single
  if direction.x.isFinite && direction.y.isFinite && direction != ⟨0, 0⟩ then
    let aside := (Point.scale (width / 2) ⟨direction.y, -direction.x⟩).single
    [source + aside, target + aside, target - aside, source - aside].map Point.single
  else []

/-- The corners of a shape among the pixels: those of a line, or two opposite ones of the square
around a circle. -/
def corners (l : Placement) : Shape → List Point
  | circle center radius _ =>
    [center - ⟨radius, radius⟩, center + ⟨radius, radius⟩].map fun p => l.place p.single
  | line source target width _ => (lineCorners l.zoom source target width).map l.place

end Shape

end Emblem
