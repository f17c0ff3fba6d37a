/-
Module: Emblem.Log
Purpose: The log: what happens while a logo is made, as events, and the line of each event. The
  events of a piece of work are a function of its result.
Main exports: Event, Event.line, pairingEvents, sceneEvents, scriptEvents, artworkEvents
-/
import Emblem.Artwork

namespace Emblem

/-- Something that happens while a logo is made. -/
inductive Event where
  | pairSkipped (i j : Nat) (rule : SkipRule)
  | nodeOverhangs (key : NodeKey)
  | sceneBuilt (nodes edges : Nat)
  | flashScripted (target : ElementRef) (start : Float) (rampIn rampOut : StepId)
  | timelineScripted (steps : Nat) (terminal : StepId) (duration : Float)
  | loopBound (rewritten : Nat)
  | logoGenerated (steps : Nat) (period : Float) (policy : LoopPolicy)
deriving Repr

/-- A field of a line. -/
def logField (name value : String) : String :=
  " " ++ name ++ "=" ++ value

/-- An event's line: its level, its message and its fields. -/
def Event.line : Event → String
  | pairSkipped i j rule =>
    "TRACE ring pair skipped" ++ logField "i" (toString i) ++ logField "j" (toString j) ++
      logField "rule" rule.describe
  | nodeOverhangs key =>
    "WARN node extends past the canvas" ++ logField "node" key.describe
  | sceneBuilt nodes edges =>
    "DEBUG scene built" ++ logField "nodes" (toString nodes) ++ logField "edges" (toString edges)
  | flashScripted target start rampIn rampOut =>
    "TRACE flash scripted" ++ logField "target" target.describe ++
      logField "start" (Number.plain start) ++ logField "ramp_in" rampIn.elementId ++
      logField "ramp_out" rampOut.elementId
  | timelineScripted steps terminal duration =>
    "DEBUG timeline scripted" ++ logField "steps" (toString steps) ++
      logField "terminal" terminal.elementId ++
      logField "duration_secs" (Number.plain duration)
  | loopBound rewritten => "DEBUG loop bound" ++ logField "rewritten" (toString rewritten)
  | logoGenerated steps period policy =>
    "INFO logo generated" ++ logField "steps" (toString steps) ++
      logField "period_secs" (Number.plain period) ++ logField "policy" policy.describe

/-- The events of choosing the ring pairs. -/
def pairingEvents : List Event :=
  skippedPairs.map fun (i, j, rule) => .pairSkipped i j rule

/-- The events of making a design's scene. -/
def sceneEvents (s : Scene) : List Event :=
  pairingEvents ++ s.overhanging.map (.nodeOverhangs ·.key) ++
    [.sceneBuilt s.nodes.length s.edges.length]

/-- The events of the flashes whose steps these are, two for each. -/
def flashEvents : List Step → List Event
  | rampIn :: rampOut :: rest =>
    .flashScripted rampIn.target rampIn.begin.offset rampIn.id rampOut.id :: flashEvents rest
  | _ => []

/-- The events of making a script's timeline. -/
def scriptEvents (s : Scripted) : List Event :=
  flashEvents s.timeline.steps ++
    [.timelineScripted s.timeline.size s.terminal s.timeline.duration]

/-- The events of binding a timeline. -/
def bindingEvents (rewritten : Nat) : List Event :=
  [.loopBound rewritten]

/-- The events of making an artwork. -/
def artworkEvents (a : Artwork) : List Event :=
  sceneEvents a.scene ++ scriptEvents ⟨a.timeline, a.loop.terminal⟩ ++
    bindingEvents (a.timeline.steps.filter fun s => !a.loop.leaves s).length ++
    match a.period with
    | .ok period => [.logoGenerated a.timeline.size period a.loop.policy]
    | .error _ => []

end Emblem
