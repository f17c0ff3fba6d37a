/-
Module: Emblem.Key
Purpose: The structural names of nodes and edges. Nodes stand on the ring, by index, or at one of
  the two fans; edges join two ring nodes or a fan with its anchor.
Main exports: ringSize, Side, Side.anchor, NodeKey, EdgeKey, EdgeKey.ringPair, EdgeKey.ends,
  elementId, describe, sorted
-/

namespace Emblem

def ringSize : Nat := 6

/-- The two fan nodes: the left one lies west of the ring, the right one east of it. -/
inductive Side where
  | left
  | right
deriving DecidableEq, Repr, Ord

namespace Side

/-- Both sides, the left one first. -/
def all : List Side := [left, right]

/-- The ring node nearest to a fan, which the fan is joined to. -/
def anchor : Side → Nat
  | left => 3
  | right => 0

/-- The side's name in element ids and documents. -/
def name : Side → String
  | left => "left"
  | right => "right"

def describe : Side → String
  | left => "Left"
  | right => "Right"

end Side

/-- What identifies a node; ring nodes come before fans. -/
inductive NodeKey where
  | ring (i : Nat)
  | fan (side : Side)
deriving DecidableEq, Repr, Ord, Inhabited

namespace NodeKey

def elementId : NodeKey → String
  | ring i => "node-ring-" ++ toString i
  | fan side => "node-fan-" ++ side.name

def describe : NodeKey → String
  | ring i => "Ring(" ++ toString i ++ ")"
  | fan side => "Fan(" ++ side.describe ++ ")"

/-- Node keys in ascending order, repeated ones kept. -/
def sorted (keys : List NodeKey) : List NodeKey :=
  keys.mergeSort fun a b => (compare a b).isLE

end NodeKey

/-- What identifies an edge; fan edges come before ring edges. -/
inductive EdgeKey where
  | fan (side : Side)
  | ring (i j : Nat)
deriving DecidableEq, Repr, Ord

namespace EdgeKey

/-- The edge between two ring nodes, named with the smaller index first. -/
def ringPair (i j : Nat) : EdgeKey :=
  .ring (min i j) (max i j)

/-- The nodes at the two ends, in the direction the edge is drawn. -/
def ends : EdgeKey → NodeKey × NodeKey
  | fan side => (.fan side, .ring side.anchor)
  | ring i j => (.ring i, .ring j)

def elementId : EdgeKey → String
  | fan side => "edge-fan-" ++ side.name
  | ring i j => "edge-" ++ toString i ++ "-" ++ toString j

def describe : EdgeKey → String
  | fan side => "Fan(" ++ side.describe ++ ")"
  | ring i j => "Ring(" ++ toString i ++ ", " ++ toString j ++ ")"

/-- Edge keys in ascending order, repeated ones kept. -/
def sorted (keys : List EdgeKey) : List EdgeKey :=
  keys.mergeSort fun a b => (compare a b).isLE

end EdgeKey

end Emblem
