/-
Module: Emblem.Timeline.Step
Purpose: Animation steps: one change of colour of one element, with its begin and its duration and
  the texts of both.
Main exports: Property, Begin, Begin.text, Step, Step.finish, Step.durationText
-/
import Emblem.Design

namespace Emblem

/-- The attribute that a step changes. -/
inductive Property where
  | fill
  | stroke
deriving DecidableEq, Repr

namespace Property

/-- The attribute that shows an element's colour: the fill of a node, the stroke of an edge. -/
def ofTarget : ElementRef → Property
  | .node _ => fill
  | .edge _ => stroke

def name : Property → String
  | fill => "fill"
  | stroke => "stroke"

end Property

/-- When a step begins, in seconds. -/
inductive Begin where
  /-- Once, after the document is loaded. -/
  | once (offset : Float)
  /-- After the document is loaded, and again after each end of the anchor step. -/
  | chained (offset : Float) (anchor : StepId)
deriving DecidableEq, Repr

namespace Begin

/-- The seconds after the load, which are also those after each end of the anchor. -/
def offset : Begin → Float
  | once t => t
  | chained t _ => t

/-- The step whose ends begin this one again. -/
def anchor? : Begin → Option StepId
  | once _ => none
  | chained _ anchor => some anchor

/-- An offset as a clock value, with two decimal places. -/
def offsetText (t : Float) : String :=
  "+" ++ Number.places 2 t ++ "s"

/-- The list of begin times as an attribute value. -/
def text : Begin → String
  | once t => offsetText t
  | chained t anchor => offsetText t ++ "; " ++ anchor.elementId ++ ".end" ++ offsetText t

end Begin

/-- One change of colour of one element. -/
structure Step where
  id : StepId
  target : ElementRef
  property : Property
  startColor : Color
  endColor : Color
  begin : Begin
  duration : Float
deriving DecidableEq, Repr

namespace Step

/-- When the step ends for the first time. -/
def finish (s : Step) : Float :=
  s.begin.offset + s.duration

/-- The duration as a clock value; whole seconds keep one decimal place. -/
def durationText (s : Step) : String :=
  if (Number.binary s.duration).isWhole then Number.places 1 s.duration ++ "s"
  else Number.plain s.duration ++ "s"

end Step

end Emblem
