/-
Module: Emblem.Scene.OfDesign
Purpose: The scene of a design: ring nodes in the colours of the palette, fan nodes and edges in the
  neutral colour.
Main exports: placements, connections, Scene.ofDesign, Scene.overhanging
-/
import Emblem.Design
import Emblem.Pairing
import Emblem.RingLayout
import Emblem.Scene.Addition

namespace Emblem

/-- The ring nodes for which the palette has a colour, then the fan nodes. -/
def placements (layout : RingLayout) (d : Design) : List Addition :=
  ((layout.ring.zip d.palette.ring).zipIdx.map fun ((center, fill), i) =>
    .node (.ring i) center d.nodeRadius fill) ++
  Side.all.map fun side => .node (.fan side) (layout.fan side) d.nodeRadius d.palette.neutral

/-- One edge for each key of a plan. -/
def connections (d : Design) (plan : List EdgeKey) : List Addition :=
  plan.map fun key => .edge key key.ends.1 key.ends.2 d.palette.neutral d.edgeWidth

def Design.layout (d : Design) : RingLayout :=
  .compute d.center d.ringRadius d.fanDistance

namespace Scene

/-- The scene of a design that makes sense. -/
def ofDesign (d : Design) : Except Error Scene := do
  d.validate
  let (s, outcome) := (Scene.empty d.canvas).addAll (placements d.layout d)
  outcome
  let (s, outcome) := s.addAll (connections d edgePlan)
  outcome
  return s

/-- The nodes that reach past the canvas. -/
def overhanging (s : Scene) : List Node :=
  s.nodes.filter fun n =>
    let extent : Point := ⟨n.radius, n.radius⟩
    !(s.canvas.contains (n.center - extent) && s.canvas.contains (n.center + extent))

end Scene

end Emblem
