/-
Module: Emblem.Codec.Vocabulary
Purpose: The document forms of the small values: colours, canvases, points, sides, keys, cues and
  loop policies, each with its reader and its writer.
Main exports: readColor, readCanvas, readPoint, readSide, readNodeKey, readEdgeKey, readTarget,
  readCue, readLoopPolicy, and a toJson for each
-/
import Emblem.Design
import Emblem.Json.Record
import Emblem.Json.Value

namespace Emblem

open Json

/-- The greatest index of a node in a document. -/
def indexLimit : Nat := Nat.pow 2 64 - 1

/-- The greatest side of a canvas in a document. -/
def sideLimit : Nat := Nat.pow 2 32 - 1

/-- Reads a colour from its text; a text that is none is only placed by what surrounds it. -/
def readColor : Reader Color := do
  match Color.ofHex (← readText) with
  | .ok c => pure c
  | .error fault => failOpen (.badColor fault)

def Color.toJson (c : Color) : Value :=
  .text c.toHex

def canvasMembers : List (Member Canvas) :=
  [⟨"width", fun c => return { c with width := (← readNatural "u32" sideLimit).toUInt32 }⟩,
   ⟨"height", fun c => return { c with height := (← readNatural "u32" sideLimit).toUInt32 }⟩]

/-- Reads a canvas, of which both sides must be given. -/
def readCanvas : Reader Canvas :=
  readRecord "struct Canvas" .complete canvasMembers ⟨0, 0⟩

def Canvas.toJson (c : Canvas) : Value :=
  .object [("width", .natural c.width.toNat), ("height", .natural c.height.toNat)]

def pointMembers : List (Member Point) :=
  [⟨"x", fun p => return { p with x := ← readFloat }⟩,
   ⟨"y", fun p => return { p with y := ← readFloat }⟩]

/-- Reads a point, of which both coordinates must be given. -/
def readPoint : Reader Point :=
  readRecord "struct Point" .complete pointMembers ⟨0, 0⟩

def Point.toJson (p : Point) : Value :=
  .object [("x", .float p.x), ("y", .float p.y)]

def readSide : Reader Side :=
  readVariant (Side.all.map fun side => .constant side.name side)

def Side.toJson (side : Side) : Value :=
  .text side.name

/-- Reads the index of a ring node. -/
def readIndex : Reader Nat :=
  readNatural "usize" indexLimit

def readNodeKey : Reader NodeKey :=
  readVariant
    [.single "ring" (return .ring (← readIndex)), .single "fan" (return .fan (← readSide))]

/-- The key of a node as a document. -/
def NodeKey.toJson : NodeKey → Value
  | ring i => .object [("ring", .natural i)]
  | fan side => .object [("fan", side.toJson)]

/-- Reads the key of an edge; the ring indices are kept in the order given. -/
def readEdgeKey : Reader EdgeKey :=
  readVariant
    [.single "fan" (return .fan (← readSide)),
     .tuple "ring" do
      let (i, j) ← readPair "tuple variant EdgeKey::Ring" readIndex readIndex
      return .ring i j]

/-- The key of an edge as a document. -/
def EdgeKey.toJson : EdgeKey → Value
  | fan side => .object [("fan", side.toJson)]
  | ring i j => .object [("ring", .list [.natural i, .natural j])]

def readTarget : Reader Cue.Target :=
  readVariant
    [.single "node" (return .node (← readNodeKey)), .single "edge" (return .edge (← readEdgeKey))]

/-- The target of a cue as a document. -/
def Cue.Target.toJson : Cue.Target → Value
  | node key => .object [("node", key.toJson)]
  | edge key => .object [("edge", key.toJson)]

def cueMembers : List (Member Cue) :=
  [⟨"target", fun c => return { c with target := ← readTarget }⟩,
   ⟨"start", fun c => return { c with start := ← readFloat }⟩]

/-- Reads a cue, of which both members must be given. -/
def readCue : Reader Cue :=
  readRecord "struct Cue" .complete cueMembers ⟨.node (.ring 0), 0⟩

def Cue.toJson (c : Cue) : Value :=
  .object [("target", c.target.toJson), ("start", .float c.start)]

def scriptToJson (cues : List Cue) : Value :=
  .list (cues.map Cue.toJson)

/-- Reads a loop policy from its name. -/
def readLoopPolicy : Reader LoopPolicy :=
  readVariant
    ([LoopPolicy.includeTerminal, .excludeTerminal].map fun policy => .constant policy.name policy)

def LoopPolicy.toJson (policy : LoopPolicy) : Value :=
  .text policy.name

end Emblem
