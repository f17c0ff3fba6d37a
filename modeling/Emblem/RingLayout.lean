/-
Module: Emblem.RingLayout
Purpose: Where the nodes stand: six directions around a centre, a sixth of a turn apart, and the
  two fans on the horizontal line through it.
Main exports: directions, ringPositions, fanPositions, RingLayout, RingLayout.compute
-/
import Emblem.Geometry
import Emblem.Key

namespace Emblem

/-- Cosine and sine, as nearest floats, of the angles that are the nearest floats to a sixth, two
sixths and so on of a whole turn. Small deviations from the ideal values are those of the angles. -/
def directions : List (Float × Float) :=
  [(1, 0),
   (0.5000000000000001, 0.8660254037844386),
   (-0.4999999999999998, 0.8660254037844387),
   (-1, 0.00000000000000012246467991473532),
   (-0.5000000000000004, -0.8660254037844384),
   (0.5000000000000001, -0.8660254037844386)]

/-- The points at distance `radius` from `center`. The second coordinate grows downwards and the sine is
taken off it, so node 1 lies above the centre and the walk is counter-clockwise as seen. -/
def ringPositions (center : Point) (radius : Float) : List Point :=
  directions.map fun (cosine, sine) => center + ⟨cosine * radius, -sine * radius⟩

/-- The left and the right point at `distance` from `center`. -/
def fanPositions (center : Point) (distance : Float) : Point × Point :=
  (⟨center.x - distance, center.y⟩, ⟨center.x + distance, center.y⟩)

/-- The position of every node. -/
structure RingLayout where
  center : Point
  /-- By ring index: east first, then each a sixth of a turn further. -/
  ring : List Point
  left : Point
  right : Point
deriving DecidableEq, Repr

namespace RingLayout

/-- Places the ring and the fans around a centre. -/
def compute (center : Point) (ringRadius fanDistance : Float) : RingLayout where
  center := center
  ring := ringPositions center ringRadius
  left := (fanPositions center fanDistance).1
  right := (fanPositions center fanDistance).2

/-- The position of one fan. -/
def fan (layout : RingLayout) : Side → Point
  | .left => layout.left
  | .right => layout.right

end RingLayout

end Emblem
