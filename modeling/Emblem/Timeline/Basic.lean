/-
Module: Emblem.Timeline.Basic
Purpose: Timelines. Each flash adds two steps, one to the highlight and one back, and every step's
  handle is its place in the list.
Main exports: Timeline, Timeline.empty, Timeline.pushFlash, Timeline.flash, Timeline.get?,
  Timeline.duration
-/
import Emblem.Timeline.Step

namespace Emblem

/-- The steps of an animation in the order they were added. -/
structure Timeline where
  steps : List Step
  highlight : Color
  ramps : Ramps
deriving DecidableEq, Repr

namespace Timeline

def empty (highlight : Color) (ramps : Ramps) : Timeline :=
  ⟨[], highlight, ramps⟩

def size (t : Timeline) : Nat :=
  t.steps.length

def get? (t : Timeline) (id : StepId) : Option Step :=
  t.steps[id.index]?

/-- The step from an element's colour to the highlight. -/
def rampIn (t : Timeline) (target : ElementRef) (resting : Color) (start : Float)
    (property : Property) : Step :=
  ⟨⟨t.size⟩, target, property, resting, t.highlight, .once start, t.ramps.rampIn⟩

/-- The step from the highlight back, which begins when the other one ends. -/
def rampOut (t : Timeline) (target : ElementRef) (resting : Color) (start : Float)
    (property : Property) : Step :=
  ⟨⟨t.size + 1⟩, target, property, t.highlight, resting, .once (start + t.ramps.rampIn),
    t.ramps.rampOut⟩

/-- The timeline with both steps of a flash after the others. -/
def pushFlash (t : Timeline) (target : ElementRef) (resting : Color) (start : Float)
    (property : Property) : Timeline :=
  { t with
    steps := t.steps ++
      [t.rampIn target resting start property, t.rampOut target resting start property] }

/-- Adds a flash of an element that starts at a time of a cycle; with the timeline comes the handle
of the step that ends it. -/
def flash (t : Timeline) (target : ElementRef) (resting : Color) (start : Float)
    (property : Property) : Except Error (StepId × Timeline) :=
  if Design.isStartTime start then
    .ok ((t.rampOut target resting start property).id, t.pushFlash target resting start property)
  else .error (.badFlashStart target start)

/-- The later of two times. Of times that compare equal, as the two zeros do, the second is taken;
what is no time is passed over. -/
def later (a b : Float) : Float :=
  if b < a || b.isNaN then a else b

/-- When the last step ends in a first run. -/
def duration (t : Timeline) : Float :=
  (t.steps.map Step.finish).foldl later 0

end Timeline

end Emblem
