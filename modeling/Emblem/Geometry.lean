/-
Module: Emblem.Geometry
Purpose: Points of the drawing plane and the canvas that a drawing is cut to.
Main exports: Point, Canvas, Canvas.viewBox, Canvas.contains, Canvas.standard
-/

namespace Emblem

/-- A point; the second coordinate grows downwards. -/
structure Point where
  x : Float
  y : Float
deriving DecidableEq, Repr, Inhabited

instance : Add Point := ⟨fun p q => ⟨p.x + q.x, p.y + q.y⟩⟩

instance : Sub Point := ⟨fun p q => ⟨p.x - q.x, p.y - q.y⟩⟩

/-- The size of a drawing in its own units. -/
structure Canvas where
  width : UInt32
  height : UInt32
deriving DecidableEq, Repr, Inhabited

namespace Canvas

/-- The canvas of the standard logo. -/
def standard : Canvas := ⟨210, 130⟩

/-- The view box that covers the canvas. -/
def viewBox (c : Canvas) : String :=
  "0 0 " ++ toString c.width.toNat ++ " " ++ toString c.height.toNat

/-- Whether a point lies on the canvas or its border. -/
def contains (c : Canvas) (p : Point) : Bool :=
  decide (0 ≤ p.x) && decide (0 ≤ p.y) && decide (p.x ≤ c.width.toFloat) &&
    decide (p.y ≤ c.height.toFloat)

end Canvas

end Emblem
