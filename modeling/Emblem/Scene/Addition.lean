/-
Module: Emblem.Scene.Addition
Purpose: Building scenes by additions. An addition is refused if its key is taken or an end of an
  edge is not there; a refused addition leaves the scene as it was, and a list of additions stops
  at the first refusal.
Main exports: Addition, Scene.pushNode, Scene.addNode, Scene.findEnd, Scene.pushEdge,
  Scene.addEdge, Scene.add, Scene.addAll
-/
import Emblem.Scene.Basic

namespace Emblem

/-- A node or an edge to be added. -/
inductive Addition where
  | node (key : NodeKey) (center : Point) (radius : Float) (fill : Color)
  | edge (key : EdgeKey) (source target : NodeKey) (stroke : Color) (width : Float)
deriving DecidableEq, Repr

namespace Scene

/-- The scene with one more node, under the next handle. -/
def pushNode (s : Scene) (key : NodeKey) (center : Point) (radius : Float) (fill : Color) :
    Scene :=
  let id : NodeId := ⟨s.nodes.length⟩
  { s with
    nodes := s.nodes ++ [⟨id, key, center, radius, fill⟩]
    nodeIndex := s.nodeIndex.insert key id }

/-- Adds a node; each key may be used once. -/
def addNode (s : Scene) (key : NodeKey) (center : Point) (radius : Float) (fill : Color) :
    Except Error (NodeId × Scene) :=
  match s.nodeIndex.find? key with
  | some _ => .error (.duplicateNode key)
  | none => .ok (⟨s.nodes.length⟩, s.pushNode key center radius fill)

/-- The handle and the centre of the node that an edge is to end at. A handle from the index is
taken to be that of a node, without a check. -/
def findEnd (s : Scene) (key : NodeKey) : Except Error (NodeId × Point) :=
  match s.nodeIndex.find? key with
  | some id => .ok (id, s.nodes[id.index]!.center)
  | none => .error (.unplacedEnd key)

/-- The scene with one more edge between two ends, under the next handle. -/
def pushEdge (s : Scene) (key : EdgeKey) (source target : NodeId × Point) (stroke : Color)
    (width : Float) : Scene :=
  let id : EdgeId := ⟨s.edges.length⟩
  { s with
    edges := s.edges ++ [⟨id, key, source.1, target.1, source.2, target.2, stroke, width⟩]
    edgeIndex := s.edgeIndex.insert key id }

/-- Adds an edge between two different nodes that are there; each key may be used once. -/
def addEdge (s : Scene) (key : EdgeKey) (source target : NodeKey) (stroke : Color)
    (width : Float) : Except Error (EdgeId × Scene) :=
  match s.edgeIndex.find? key with
  | some _ => .error (.duplicateEdge key)
  | none => do
    let a ← s.findEnd source
    let b ← s.findEnd target
    if a.1 = b.1 then .error (.selfLoop key)
    else .ok (⟨s.edges.length⟩, s.pushEdge key a b stroke width)

def add (s : Scene) : Addition → Except Error (ElementRef × Scene)
  | .node key center radius fill =>
    (s.addNode key center radius fill).map fun (id, s) => (.node id, s)
  | .edge key source target stroke width =>
    (s.addEdge key source target stroke width).map fun (id, s) => (.edge id, s)

/-- Makes additions in order up to the first that is refused. -/
def addAll (s : Scene) : List Addition → Scene × Except Error Unit
  | [] => (s, .ok ())
  | a :: rest =>
    match s.add a with
    | .ok (_, s) => s.addAll rest
    | .error e => (s, .error e)

end Scene

end Emblem
