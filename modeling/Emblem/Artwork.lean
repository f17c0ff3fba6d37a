/-
Module: Emblem.Artwork
Purpose: Everything that is made from a design: its scene, its looping timeline, and the texts of
  the drawing at rest and of the animated drawing.
Main exports: Artwork, Artwork.ofDesign, Artwork.specs, Artwork.period
-/
import Emblem.Scene.OfDesign
import Emblem.Svg.Drawing
import Emblem.Timeline.Loop
import Emblem.Timeline.Script

namespace Emblem

/-- What is made from a design. -/
structure Artwork where
  scene : Scene
  /-- The timeline, bound to the loop. -/
  timeline : Timeline
  loop : Loop
  /-- The text of the drawing at rest. -/
  still : String
  /-- The text of the drawing with its animations. -/
  moving : String

namespace Artwork

/-- Makes the artwork of a design; it is refused if the design is, or if a cue points at nothing. -/
def ofDesign (d : Design) : Except Error Artwork := do
  let scene ← Scene.ofDesign d
  let scripted ← Timeline.ofScript scene d.script d.palette.highlight d.flash
  let loop : Loop := ⟨scripted.terminal, d.loopPolicy⟩
  let (_, timeline) ← loop.bind scripted.timeline
  let moving ← Svg.animated scene timeline
  -- The log reports the period, so a timeline without one is refused as well.
  let _ ← loop.period timeline
  return ⟨scene, timeline, loop, (Svg.ofScene scene).text, moving.text⟩

/-- The attribute values of the animations. -/
def specs (a : Artwork) : Except Error (List AnimateSpec) :=
  a.scene.specs a.timeline

def period (a : Artwork) : Except Error Float :=
  a.loop.period a.timeline

end Artwork

end Emblem
