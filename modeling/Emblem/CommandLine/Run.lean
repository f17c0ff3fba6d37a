/-
Module: Emblem.CommandLine.Run
Purpose: Doing what the command line asks for, on any file system, and what the program then prints.
Main exports: Outcome, run
-/
import Emblem.CommandLine.Arguments
import Emblem.Files.Designs
import Emblem.Raster.Scan

namespace Emblem.CommandLine

open Files Json

/-- How a run of the program ends. -/
structure Outcome where
  exitCode : Nat
  stdout : String
  stderr : String
deriving DecidableEq, Repr

/-- An error with, if there is one, the error behind it. -/
structure Failure where
  message : String
  cause : Option String
deriving DecidableEq, Repr

/-- An error as a failure of the program. -/
def Failure.ofError (e : Error) : Failure :=
  ⟨e.message, e.cause?⟩

/-- The failure to load a design, with the reason behind it. -/
def Failure.ofLoading (path : String) (e : Error) : Failure :=
  ⟨"load config '" ++ path ++ "'", some e.message⟩

/-- A text indented by four spaces, line by line. -/
def indent (s : String) : String :=
  String.ofList (' ' :: ' ' :: ' ' :: ' ' :: s.toList.flatMap fun c =>
    if c = '\n' then ['\n', ' ', ' ', ' ', ' '] else [c])

/-- What is printed for a failure. -/
def Failure.text (f : Failure) : String :=
  match f.cause with
  | none => "Error: " ++ f.message ++ "\n"
  | some cause => "Error: " ++ f.message ++ "\n\nCaused by:\n" ++ indent cause ++ "\n"

/-- What a command prints when it succeeds. -/
structure Printed where
  stdout : String
  stderr : String
deriving DecidableEq, Repr

def Outcome.ofResult : Except Failure Printed → Outcome
  | .ok p => ⟨0, p.stdout, p.stderr⟩
  | .error f => ⟨1, "", f.text⟩

/-- What is printed when the arguments make no sense. -/
def usage : String :=
  "Usage: hexlogo <COMMAND>\n\nCommands:\n" ++
  "  generate  Write the static and animated SVG logos\n" ++
  "  preview   Rasterize the static logo to a PNG\n" ++
  "  timeline  Print the loop-bound animation timeline as JSON\n" ++
  "  help      Print this message\n"

/-- The program's name and version. -/
def versionText : String := "hexlogo 0.1.0\n"

/-- The animations of an artwork as a document, with the names of members in order. -/
def specToJson (spec : AnimateSpec) : Value :=
  .object
    [("attribute", .text spec.attributeName),
     ("begin", .text spec.begin),
     ("dur", .text spec.duration),
     ("from", .text spec.startColor),
     ("id", .text spec.id),
     ("target", .text spec.target),
     ("to", .text spec.endColor)]

/-- The looping timeline of an artwork as a document, with the names of members in order. -/
def timelineToJson (a : Artwork) : Except Error Value := do
  let specs ← a.specs
  let period ← a.period
  return .object
    [("period_secs", .float period),
     ("policy", a.loop.policy.toJson),
     ("steps", .list (specs.map specToJson)),
     ("terminal", .text a.loop.terminal.elementId)]

/-- The line that tells of a written file. -/
def wroteLine (path : String) : String :=
  "wrote " ++ path ++ "\n"

variable {m : Type → Type} [Monad m] [Storage m]

/-- A command, which may fail. -/
abbrev Action (m : Type → Type) := ExceptT Failure m

/-- A result of the library inside a command. -/
def ofExcept {α : Type} : Except Error α → Action m α
  | .ok a => pure a
  | .error e => throw (.ofError e)

/-- Work on files inside a command. -/
def ofWork {α : Type} (work : m (Except Error α)) : Action m α := do
  ofExcept (← work)

/-- Loads the design that a command is to work on. -/
def loadDesign (source : DesignSource) : Action m Design := do
  let d ← match source.path with
    | none => pure Design.standard
    | some path => do
      match ← (Design.load path : m (Except Error Design)) with
      | .ok d => pure d
      | .error e => throw (.ofLoading path e)
  match source.policy with
  | some policy => return { d with loopPolicy := policy }
  | none => return d

/-- Writes the two drawings of a design. -/
def writeDrawings (source : DesignSource) (directory : String) (names : FileNames) :
    Action m Printed := do
  let d ← loadDesign source
  let a ← ofExcept (Artwork.ofDesign d)
  let written ← ofWork (a.write directory names)
  return ⟨"", wroteLine written.still ++ wroteLine written.moving⟩

def writePicture (path : String) (p : Picture) : m (Except Error Unit) := do
  match ← Storage.write path (.picture p) with
  | .ok () => return .ok ()
  | .error trouble => return .error (.pictureNotWritten path trouble)

/-- Writes a picture of a design's drawing at rest. The script plays no part in it. -/
def writePreview (source : DesignSource) (out : String) (scale : Float32) : Action m Printed := do
  let d ← loadDesign source
  let scene ← ofExcept (Scene.ofDesign d)
  let p ← ofExcept (rasterize (Svg.ofScene scene).text scale)
  match parent? out with
  | some directory =>
    if !directory.isEmpty then ofWork (makeTarget directory)
  | none => pure ()
  ofWork (writePicture out p)
  return ⟨"", wroteLine out⟩

/-- Prints the animations of a design. -/
def printTimeline (source : DesignSource) : Action m Printed := do
  let d ← loadDesign source
  let a ← ofExcept (Artwork.ofDesign d)
  let document ← ofExcept (timelineToJson a)
  return ⟨document.indented ++ "\n", ""⟩

/-- Does what is asked for. -/
def Request.run : Request → m Outcome
  | .generate source directory names =>
    return Outcome.ofResult (← (writeDrawings source directory names).run)
  | .preview source out scale => return Outcome.ofResult (← (writePreview source out scale).run)
  | .timeline source => return Outcome.ofResult (← (printTimeline source).run)
  | .help => return ⟨0, usage, ""⟩
  | .version => return ⟨0, versionText, ""⟩

/-- Runs the program on arguments. -/
def run (arguments : List String) : m Outcome :=
  match Request.ofArguments? arguments with
  | some request => request.run
  | none => return ⟨2, "", usage⟩

end Emblem.CommandLine
