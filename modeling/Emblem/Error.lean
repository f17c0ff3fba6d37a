/-
Module: Emblem.Error
Purpose: Every refusal of the program as a cause, the stage that raises it, and its words.
Main exports: Stage, Dimension, Error, Error.stage?, Error.message, Error.cause?
-/
import Emblem.Cue
import Emblem.Handle
import Emblem.Json.Fault

namespace Emblem

/-- The stages of the work that refuse on their own account. -/
inductive Stage where
  | validation
  | layout
  | animation
  | render
deriving DecidableEq, Repr

def Stage.name : Stage → String
  | validation => "validation"
  | layout => "layout"
  | animation => "animation"
  | render => "render"

/-- The message of a refusal at a stage. -/
def Stage.message (s : Stage) (detail : String) : String :=
  s.name ++ " error: " ++ detail

/-- The measures of a design that must be finite and positive. -/
inductive Dimension where
  | nodeRadius
  | ringRadius
  | fanDistance
  | edgeWidth
  | rampIn
  | rampOut
deriving DecidableEq, Repr

def Dimension.name : Dimension → String
  | nodeRadius => "node_radius"
  | ringRadius => "ring_radius"
  | fanDistance => "fan_distance"
  | edgeWidth => "edge_width"
  | rampIn => "flash.ramp_in_secs"
  | rampOut => "flash.ramp_out_secs"

/-- The greatest width and height of a picture. -/
def maxSide : Nat := 8192

/-- Why the program refuses. -/
inductive Error where
  | emptyCanvas
  | centerNotFinite
  | notPositive (dimension : Dimension) (value : Float)
  /-- The palette has not one colour for each ring node. -/
  | ringColors (count : Nat)
  | noCues
  | badCueStart (start : Float) (target : Cue.Target)
  /-- The design file cannot be opened. -/
  | unopened (path : String) (trouble : Files.Trouble)
  /-- The design file is no document of a design. -/
  | malformedDesign (fault : Json.Fault)
  | badScale (scale : Float32)
  | duplicateNode (key : NodeKey)
  | duplicateEdge (key : EdgeKey)
  /-- An edge is to end at a node that is not there. -/
  | unplacedEnd (key : NodeKey)
  | selfLoop (key : EdgeKey)
  | unknownNode (id : NodeId)
  | unknownEdge (id : EdgeId)
  | noNode (key : NodeKey)
  | noEdge (key : EdgeKey)
  | badFlashStart (target : ElementRef) (start : Float)
  /-- A script ends without a flash. -/
  | emptyScript
  /-- A loop is to be bound to a step that is not there. -/
  | foreignTerminal (step : StepId)
  /-- A period is asked for whose step is not there. -/
  | unknownTerminal (step : StepId)
  | malformedDrawing
  | pictureTooLarge (width height : Nat)
  /-- There is nothing to paint a picture on. -/
  | noSurface
  /-- A surface has not the pixels of the picture that it was made for. -/
  | surfaceMismatch
  /-- A directory to write to cannot be made. -/
  | directoryNotMade (path : String) (trouble : Files.Trouble)
  | drawingNotWritten (path : String) (trouble : Files.Trouble)
  | pictureNotWritten (path : String) (trouble : Files.Trouble)
deriving Repr

namespace Error

/-- The stage that raises an error; errors of the file system belong to none. -/
def stage? : Error → Option Stage
  | emptyCanvas | centerNotFinite | notPositive .. | ringColors _ | noCues | badCueStart .. |
    unopened .. | malformedDesign _ | badScale _ => some .validation
  | duplicateNode _ | duplicateEdge _ | unplacedEnd _ | selfLoop _ | unknownNode _ |
    unknownEdge _ | noNode _ | noEdge _ => some .layout
  | badFlashStart .. | emptyScript | foreignTerminal _ | unknownTerminal _ => some .animation
  | malformedDrawing | pictureTooLarge .. | noSurface | surfaceMismatch => some .render
  | directoryNotMade .. | drawingNotWritten .. | pictureNotWritten .. => none

/-- What an error says, without its stage. -/
def detail : Error → String
  | emptyCanvas => "canvas width/height must be > 0"
  | centerNotFinite => "center must be finite"
  | notPositive dimension value =>
    dimension.name ++ " must be finite and > 0 (got " ++ Number.plain value ++ ")"
  | ringColors count =>
    "palette.ring must have exactly " ++ toString ringSize ++ " colors (got " ++ toString count ++
      ")"
  | noCues => "script must contain at least one cue"
  | badCueStart start target =>
    "cue start must be finite and >= 0 (got " ++ Number.plain start ++ " for " ++
      target.describe ++ ")"
  | unopened path trouble => "open logo config '" ++ path ++ "': " ++ trouble.message
  | malformedDesign fault => "parse logo config JSON: " ++ fault.message
  | badScale scale => "raster scale must be finite and > 0 (got " ++ Number.plain32 scale ++ ")"
  | duplicateNode key => "duplicate node " ++ key.describe
  | duplicateEdge key => "duplicate edge " ++ key.describe
  | unplacedEnd key => "edge endpoint " ++ key.describe ++ " has not been placed"
  | selfLoop key => "edge " ++ key.describe ++ " is a self-loop"
  | unknownNode id => "unknown node handle " ++ toString id.index
  | unknownEdge id => "unknown edge handle " ++ toString id.index
  | noNode key => "no node " ++ key.describe ++ " in scene"
  | noEdge key => "no edge " ++ key.describe ++ " in scene"
  | badFlashStart target start =>
    "flash on " ++ target.describe ++ " must start at a finite, non-negative time (got " ++
      Number.plain start ++ ")"
  | emptyScript => "flash script has no cues"
  | foreignTerminal step =>
    "terminal step " ++ step.elementId ++ " is not part of the timeline"
  | unknownTerminal step => "terminal step " ++ step.elementId ++ " is unknown"
  | malformedDrawing => "svg parse failed: "
  | pictureTooLarge width height =>
    "raster size too large: " ++ toString width ++ "x" ++ toString height ++ " (max " ++
      toString maxSide ++ "x" ++ toString maxSide ++ ")"
  | noSurface => "failed to allocate pixmap"
  | surfaceMismatch => "pixmap size does not match image buffer"
  | directoryNotMade path _ => "create output dir '" ++ path ++ "'"
  | drawingNotWritten path _ => "write svg '" ++ path ++ "'"
  | pictureNotWritten path _ => "write png '" ++ path ++ "'"

def message (e : Error) : String :=
  match e.stage? with
  | some stage => stage.message e.detail
  | none => e.detail

/-- The refusal of the operating system behind an error, where it is told apart from the error. -/
def cause? : Error → Option String
  | directoryNotMade _ trouble | drawingNotWritten _ trouble | pictureNotWritten _ trouble =>
    some trouble.message
  | _ => none

end Error

end Emblem
