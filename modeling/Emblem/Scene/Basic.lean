/-
Module: Emblem.Scene.Basic
Purpose: Scenes: the nodes and edges of a drawing in the order they are drawn, found by handle or,
  through an index, by key. Edges are drawn before nodes, so that circles cover the ends of lines.
Main exports: Node, Edge, Scene, Scene.node, Scene.edge, Scene.nodeByKey, Scene.edgeByKey,
  Scene.elementId, Scene.restingColor
-/
import Emblem.Geometry
import Emblem.Error
import Emblem.Index

namespace Emblem

/-- A filled circle. -/
structure Node where
  id : NodeId
  key : NodeKey
  center : Point
  radius : Float
  fill : Color
deriving DecidableEq, Repr, Inhabited

/-- A straight line between two nodes, with the centres of both as they were when it was added. -/
structure Edge where
  id : EdgeId
  key : EdgeKey
  source : NodeId
  target : NodeId
  sourcePoint : Point
  targetPoint : Point
  stroke : Color
  width : Float
deriving DecidableEq, Repr

/-- What is drawn on a canvas, with the handle of every key. -/
structure Scene where
  canvas : Canvas
  nodes : List Node
  edges : List Edge
  nodeIndex : Index NodeKey NodeId
  edgeIndex : Index EdgeKey EdgeId
deriving DecidableEq, Repr

namespace Scene

def empty (canvas : Canvas) : Scene :=
  ⟨canvas, [], [], .empty, .empty⟩

def node (s : Scene) (id : NodeId) : Except Error Node :=
  match s.nodes[id.index]? with
  | some n => .ok n
  | none => .error (.unknownNode id)

def edge (s : Scene) (id : EdgeId) : Except Error Edge :=
  match s.edges[id.index]? with
  | some e => .ok e
  | none => .error (.unknownEdge id)

def nodeByKey (s : Scene) (key : NodeKey) : Except Error Node :=
  match s.nodeIndex.find? key with
  | some id => s.node id
  | none => .error (.noNode key)

/-- The edge with this key; the indices of a ring edge must come in the order of its key. -/
def edgeByKey (s : Scene) (key : EdgeKey) : Except Error Edge :=
  match s.edgeIndex.find? key with
  | some id => s.edge id
  | none => .error (.noEdge key)

/-- The id of the element that a reference points at. -/
def elementId (s : Scene) : ElementRef → Except Error String
  | .node id => (s.node id).map (·.key.elementId)
  | .edge id => (s.edge id).map (·.key.elementId)

/-- The colour at rest of the element that a reference points at: fill of a node, stroke of an
edge. -/
def restingColor (s : Scene) : ElementRef → Except Error Color
  | .node id => (s.node id).map (·.fill)
  | .edge id => (s.edge id).map (·.stroke)

end Scene

end Emblem
