/-
Module: Emblem.Codec.Design
Purpose: The document form of a design. A document names only what differs from the standard
  design; a name that is none of a design's is refused.
Main exports: readPalette, readRamps, readDesign, Design.ofJson, Design.toJson
-/
import Emblem.Codec.Vocabulary

namespace Emblem

open Json

def paletteMembers : List (Member Palette) :=
  [⟨"ring", fun p => return { p with ring := ← readList readColor }⟩,
   ⟨"neutral", fun p => return { p with neutral := ← readColor }⟩,
   ⟨"highlight", fun p => return { p with highlight := ← readColor }⟩]

/-- Reads a palette; what is not given is that of the standard one. -/
def readPalette : Reader Palette :=
  readRecord "struct Palette" .overriding paletteMembers .standard

def Palette.toJson (p : Palette) : Value :=
  .object
    [("ring", .list (p.ring.map Color.toJson)),
     ("neutral", p.neutral.toJson),
     ("highlight", p.highlight.toJson)]

/-- The members of the durations of a flash. -/
def rampsMembers : List (Member Ramps) :=
  [⟨"ramp_in_secs", fun r => return { r with rampIn := ← readFloat }⟩,
   ⟨"ramp_out_secs", fun r => return { r with rampOut := ← readFloat }⟩]

/-- Reads the durations of a flash; what is not given is that of the standard ones. -/
def readRamps : Reader Ramps :=
  readRecord "struct FlashTiming" .overriding rampsMembers .standard

/-- The durations of a flash as a document. -/
def Ramps.toJson (r : Ramps) : Value :=
  .object [("ramp_in_secs", .float r.rampIn), ("ramp_out_secs", .float r.rampOut)]

def designMembers : List (Member Design) :=
  [⟨"canvas", fun d => return { d with canvas := ← readCanvas }⟩,
   ⟨"center", fun d => return { d with center := ← readPoint }⟩,
   ⟨"node_radius", fun d => return { d with nodeRadius := ← readFloat }⟩,
   ⟨"ring_radius", fun d => return { d with ringRadius := ← readFloat }⟩,
   ⟨"fan_distance", fun d => return { d with fanDistance := ← readFloat }⟩,
   ⟨"edge_width", fun d => return { d with edgeWidth := ← readFloat }⟩,
   ⟨"palette", fun d => return { d with palette := ← readPalette }⟩,
   ⟨"flash", fun d => return { d with flash := ← readRamps }⟩,
   ⟨"loop_terminal", fun d => return { d with loopPolicy := ← readLoopPolicy }⟩,
   ⟨"script", fun d => return { d with script := ← readList readCue }⟩]

/-- Reads a design; what is not given is that of the standard one. -/
def readDesign : Reader Design :=
  readRecord "struct LogoConfig" .overriding designMembers .standard

namespace Design

/-- The design that a document describes. -/
def ofJson (document : List UInt8) : Except Error Design :=
  match readDesign.document document with
  | .ok d => .ok d
  | .error fault => .error (.malformedDesign fault)

/-- A design as a document that names everything. -/
def toJson (d : Design) : Value :=
  .object
    [("canvas", d.canvas.toJson),
     ("center", d.center.toJson),
     ("node_radius", .float d.nodeRadius),
     ("ring_radius", .float d.ringRadius),
     ("fan_distance", .float d.fanDistance),
     ("edge_width", .float d.edgeWidth),
     ("palette", d.palette.toJson),
     ("flash", d.flash.toJson),
     ("loop_terminal", d.loopPolicy.toJson),
     ("script", scriptToJson d.script)]

end Design

end Emblem
