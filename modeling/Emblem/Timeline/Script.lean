/-
Module: Emblem.Timeline.Script
Purpose: The timeline of a script: each cue is looked up in the scene and flashes its element from
  the colour that it has at rest.
Main exports: Scripted, Scene.resolve, Timeline.ofScript
-/
import Emblem.Scene.Basic
import Emblem.Timeline.Basic

namespace Emblem

/-- The element that a cue flashes. -/
def Scene.resolve (s : Scene) : Cue.Target → Except Error ElementRef
  | .node key => (s.nodeByKey key).map fun n => .node n.id
  | .edge key => (s.edgeByKey key).map fun e => .edge e.id

/-- A timeline with the step that ends it. -/
structure Scripted where
  timeline : Timeline
  /-- The last step of the last cue. -/
  terminal : StepId
deriving DecidableEq, Repr

namespace Timeline

def addCue (s : Scene) (t : Timeline) (cue : Cue) : Except Error (StepId × Timeline) := do
  let target ← s.resolve cue.target
  let resting ← s.restingColor target
  t.flash target resting cue.start (.ofTarget target)

/-- Adds the flashes of cues in order; with the timeline comes the step that ended the last one. -/
def addCues (s : Scene) : Option StepId → Timeline → List Cue →
    Except Error (Option StepId × Timeline)
  | last, t, [] => .ok (last, t)
  | _, t, cue :: rest => do
    let (last, t) ← addCue s t cue
    addCues s (some last) t rest

/-- The timeline of a script, which must not be empty. -/
def ofScript (s : Scene) (cues : List Cue) (highlight : Color) (ramps : Ramps) :
    Except Error Scripted := do
  let (last, t) ← addCues s none (Timeline.empty highlight ramps) cues
  match last with
  | some terminal => .ok ⟨t, terminal⟩
  | none => .error .emptyScript

end Timeline

end Emblem
