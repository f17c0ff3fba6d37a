/-
Module: Emblem.Design
Purpose: Designs, which hold everything about a logo that can be chosen, with the standard design
  and the check that a design makes sense.
Main exports: Palette, Ramps, LoopPolicy, Design, Design.standard, Design.validate
-/
import Emblem.Geometry
import Emblem.Error

namespace Emblem

/-- The colours of a logo. -/
structure Palette where
  /-- The fill of each ring node, by index. -/
  ring : List Color
  /-- The colour of edges and fan nodes. -/
  neutral : Color
  /-- The colour that a flash turns to. -/
  highlight : Color
deriving DecidableEq, Repr

/-- Three colours around the ring, twice. -/
def Palette.standard : Palette where
  ring := [.ringBlue, .ringRed, .ringYellow, .ringBlue, .ringRed, .ringYellow]
  neutral := .neutralGray
  highlight := .flashGreen

/-- The two durations of a flash, in seconds. -/
structure Ramps where
  /-- From the resting colour to the highlight. -/
  rampIn : Float
  /-- From the highlight back to the resting colour. -/
  rampOut : Float
deriving DecidableEq, Repr

/-- One second in, a little more out. -/
def Ramps.standard : Ramps := ⟨1.0, 1.2⟩

/-- Whether the step that ends a cycle is started again by its own end. Left out, it plays in the
first cycle only, and the sequence stops after one repetition. -/
inductive LoopPolicy where
  | includeTerminal
  | excludeTerminal
deriving DecidableEq, Repr

namespace LoopPolicy

/-- The policy's name in documents. -/
def name : LoopPolicy → String
  | includeTerminal => "include"
  | excludeTerminal => "exclude"

def describe : LoopPolicy → String
  | includeTerminal => "Include"
  | excludeTerminal => "Exclude"

/-- Loops restart their terminal step unless they are told otherwise. -/
def standard : LoopPolicy := includeTerminal

end LoopPolicy

/-- Everything about a logo that can be chosen. -/
structure Design where
  canvas : Canvas
  /-- The centre of the ring. -/
  center : Point
  nodeRadius : Float
  /-- The distance of the ring nodes from the centre. -/
  ringRadius : Float
  /-- The distance of the fan nodes from the centre. -/
  fanDistance : Float
  edgeWidth : Float
  palette : Palette
  flash : Ramps
  loopPolicy : LoopPolicy
  /-- The flashes of a cycle; the last one ends it. -/
  script : List Cue
deriving DecidableEq, Repr

namespace Design

def standard : Design where
  canvas := .standard
  center := ⟨105.0, 65.0⟩
  nodeRadius := 15.0
  ringRadius := 50.0
  fanDistance := 90.0
  edgeWidth := 2.5
  palette := .standard
  flash := .standard
  loopPolicy := .standard
  script := canonicalScript

/-- Refuses unless something holds. -/
def require (p : Prop) [Decidable p] (e : Error) : Except Error Unit :=
  if p then .ok () else .error e

/-- Refuses a measure that is not finite and positive. -/
def checkPositive (dimension : Dimension) (value : Float) : Except Error Unit :=
  require (value.isFinite ∧ 0 < value) (.notPositive dimension value)

/-- Whether something can happen so many seconds after the start of a cycle. -/
def isStartTime (t : Float) : Bool :=
  t.isFinite && !decide (t < 0)

/-- Refuses a script with a cue that cannot happen at its time; the first such cue counts. -/
def checkStarts (script : List Cue) : Except Error Unit :=
  match script.find? fun cue => !isStartTime cue.start with
  | some cue => .error (.badCueStart cue.start cue.target)
  | none => .ok ()

/-- Refuses a design that is degenerate; the first reason in this order counts. -/
def validate (d : Design) : Except Error Unit := do
  require (d.canvas.width ≠ 0 ∧ d.canvas.height ≠ 0) .emptyCanvas
  require (d.center.x.isFinite ∧ d.center.y.isFinite) .centerNotFinite
  checkPositive .nodeRadius d.nodeRadius
  checkPositive .ringRadius d.ringRadius
  checkPositive .fanDistance d.fanDistance
  checkPositive .edgeWidth d.edgeWidth
  checkPositive .rampIn d.flash.rampIn
  checkPositive .rampOut d.flash.rampOut
  require (d.palette.ring.length = ringSize) (.ringColors d.palette.ring.length)
  require (d.script ≠ []) .noCues
  checkStarts d.script

end Design

end Emblem
