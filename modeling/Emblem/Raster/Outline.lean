/-
Module: Emblem.Raster.Outline
Purpose: The outlines of shapes among the pixels, and which points they enclose. A circle is a chain
  of arcs, and an arc that runs too far off is replaced by its chord.
Main exports: Outline, Outline.encloses, Shape.outline
-/
import Emblem.Raster.Shape

namespace Emblem

/-! Arcs. -/

namespace Arc

/-- The cosine and the sine of an angle of at most a quarter of a turn, by their power series. -/
def direction (angle : Float) : Point :=
  let step (sum : Point × Float) (k : Nat) : Point × Float :=
    let (p, term) := sum
    let p : Point := match k % 4 with
      | 0 => ⟨p.x + term, p.y⟩
      | 1 => ⟨p.x, p.y + term⟩
      | 2 => ⟨p.x - term, p.y⟩
      | _ => ⟨p.x, p.y - term⟩
    (p, term * angle / (k + 1).toFloat)
  ((List.range 24).foldl step (⟨0, 0⟩, 1)).1

/-- A direction a quarter of a turn further. -/
def quarterOn (p : Point) : Point :=
  ⟨-p.y, p.x⟩

/-- The angle of a quarter of a turn. -/
def quarter : Float := 1.5707963267948966

/-- The least of so many numbers from `n` on whose fourfold has a sixth power of at least `bound`,
or else the last of them. -/
def countFrom (bound : Float) : Nat → Nat → Nat
  | 0, n => n
  | more + 1, n =>
    let k := (4 * n).toFloat
    if bound ≤ k * k * k * k * k * k then n else countFrom bound more (n + 1)

/-- How many arcs make up a quarter of a circle: so many that each is close to a cubic curve. -/
def count (radius : Float) : Nat :=
  countFrom (11.163 * radius) 100000 1

/-- The directions in which the arcs of a circle begin, once around. -/
def directions (n : Nat) : List Point :=
  let first := (List.range n).map fun k => direction (k.toFloat * quarter / n.toFloat)
  let second := first.map quarterOn
  first ++ second ++ (first ++ second).map fun p => ⟨-p.x, -p.y⟩

/-- How far off the two middle control points of a cubic curve lie from its ends, for the arc of a
circle of radius one. -/
def reach (n : Nat) : Float :=
  let d := direction (quarter / (4 * n).toFloat)
  4 / 3 * (d.y / d.x)

/-- The farthest coordinate that the control points of an arc may have. -/
def limit : Float := 4194304

/-- Whether a point is too far off to be a control point. -/
def isFar (p : Point) : Bool :=
  !(decide (-limit ≤ p.x) && decide (p.x ≤ limit) && decide (-limit ≤ p.y) &&
    decide (p.y ≤ limit))

/-- The chords of those arcs of a circle that run too far off. -/
def chords (l : Placement) (center : Point) (radius : Float) : List (Point × Point) :=
  let n := count radius
  let reach := reach n
  let along := directions n
  let pointAt (p : Point) : Point := l.place (center + p.scale radius).single
  (along.zip (along.drop 1 ++ along.take 1)).filterMap fun (p, q) =>
    let control := [p, p + (quarterOn p).scale reach, q - (quarterOn q).scale reach, q].map pointAt
    if control.any isFar then some (pointAt p, pointAt q) else none

end Arc

/-! Outlines. -/

/-- The outline of a shape among the pixels. -/
inductive Outline where
  /-- A disc without what lies beyond some of its chords, which run in the sense of the
  coordinates. -/
  | disc (center : Point) (radius : Float) (chords : List (Point × Point))
  | polygon (corners : List Point)
deriving DecidableEq, Repr

namespace Outline

/-- Whether a point lies on the inner side of a chord. -/
def isWithin (p : Point) (chord : Point × Point) : Bool :=
  let along := chord.2 - chord.1
  let d := p - chord.1
  decide (0 ≤ along.x * d.y - along.y * d.x)

/-- Whether the ray from a point to the left meets the side from `a` to `b`. -/
def meets (p a b : Point) : Bool :=
  (decide (a.y ≤ p.y) != decide (b.y ≤ p.y)) &&
    decide (a.x + (p.y - a.y) * (b.x - a.x) / (b.y - a.y) < p.x)

/-- Whether an outline encloses a point. A polygon does if the ray from the point to the left meets
an odd number of its sides. -/
def encloses : Outline → Point → Bool
  | disc center radius chords, p =>
    let d := p - center
    decide (d.x * d.x + d.y * d.y ≤ radius * radius) && chords.all (isWithin p)
  | polygon corners, p =>
    let sides := corners.zip (corners.drop 1 ++ corners.take 1)
    (sides.filter fun (a, b) => meets p a b).length % 2 == 1

end Outline

def Shape.outline (l : Placement) : Shape → Outline
  | circle center radius _ =>
    .disc (center.scale l.zoom + l.shift) (radius * l.zoom) (Arc.chords l center radius)
  | line source target width stroke => .polygon (corners l (line source target width stroke))

end Emblem
