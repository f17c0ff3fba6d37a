/-
Module: Emblem.Svg.Drawing
Purpose: The drawing of a scene, and of a scene with a timeline: one element for each edge, node and
  animation step, in this order.
Main exports: AnimateSpec, Scene.specs, Svg.ofScene, Svg.animated
-/
import Emblem.Scene.Basic
import Emblem.Svg.Element
import Emblem.Timeline.Basic

namespace Emblem

/-- The attribute values of a step's element. -/
structure AnimateSpec where
  id : String
  /-- The id of the element that changes. -/
  target : String
  attributeName : String
  startColor : String
  endColor : String
  begin : String
  duration : String
deriving DecidableEq, Repr

/-- The attribute values of a step in a scene. -/
def Scene.spec (s : Scene) (step : Step) : Except Error AnimateSpec := do
  let target ← s.elementId step.target
  return {
    id := step.id.elementId
    target := target
    attributeName := step.property.name
    startColor := step.startColor.toHex
    endColor := step.endColor.toHex
    begin := step.begin.text
    duration := step.durationText }

/-- The attribute values of every step; each must point into the scene. -/
def Scene.specs (s : Scene) (t : Timeline) : Except Error (List AnimateSpec) :=
  t.steps.mapM s.spec

namespace Svg

/-- The line of an edge. -/
def line (e : Edge) : Element :=
  .mk "line"
    [("id", e.key.elementId),
     ("x1", Number.plain e.sourcePoint.x),
     ("y1", Number.plain e.sourcePoint.y),
     ("x2", Number.plain e.targetPoint.x),
     ("y2", Number.plain e.targetPoint.y),
     ("stroke", e.stroke.toHex),
     ("stroke-width", Number.plain e.width)]
    []

def circle (n : Node) : Element :=
  .mk "circle"
    [("id", n.key.elementId),
     ("cx", Number.plain n.center.x),
     ("cy", Number.plain n.center.y),
     ("r", Number.plain n.radius),
     ("fill", n.fill.toHex)]
    []

def animate (spec : AnimateSpec) : Element :=
  .mk "animate"
    [("id", spec.id),
     ("xlink:href", "#" ++ spec.target),
     ("attributeName", spec.attributeName),
     ("from", spec.startColor),
     ("to", spec.endColor),
     ("begin", spec.begin),
     ("dur", spec.duration)]
    []

def linkNameSpace : String := "http://www.w3.org/1999/xlink"

def root (c : Canvas) (children : List Element) : Element :=
  .mk "svg"
    [("xmlns", nameSpace),
     ("xmlns:xlink", linkNameSpace),
     ("width", toString c.width.toNat),
     ("height", toString c.height.toNat),
     ("viewBox", c.viewBox)]
    children

/-- The drawing of a scene at rest. -/
def ofScene (s : Scene) : Element :=
  root s.canvas (s.edges.map line ++ s.nodes.map circle)

/-- The drawing of a scene with the animations of a timeline. -/
def animated (s : Scene) (t : Timeline) : Except Error Element := do
  return (ofScene s).append ((← s.specs t).map animate)

end Svg

end Emblem
