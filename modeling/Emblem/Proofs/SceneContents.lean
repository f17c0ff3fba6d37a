/-
Module: Emblem.Proofs.SceneContents
Purpose: What is in the scene of a design: the nodes of its layout, and the edges of the plan, each of
  them between the centres of two nodes.
Main exports: Scene.ofDesign_eq_ok_iff, Node.addition, Edge.look, RingLayout.position?, Palette.fill?,
  Scene.Contents, Scene.ofDesign_contents, Scene.Contents.node_look, Scene.Contents.edge_look
-/
import Emblem.Proofs.DesignCheck

namespace Emblem

/-- The addition that brings a node like this one. -/
def Node.addition (n : Node) : Addition :=
  .node n.key n.center n.radius n.fill

/-- What an edge shows besides its ends. -/
def Edge.look (e : Edge) : EdgeKey × Color × Float :=
  (e.key, e.stroke, e.width)

namespace Addition

/-- The addition itself, if it brings a node. -/
def nodes : Addition → List Addition
  | node key center radius fill => [node key center radius fill]
  | edge .. => []

/-- What the edge of an addition shows besides its ends. -/
def edgeLooks : Addition → List (EdgeKey × Color × Float)
  | node .. => []
  | edge key _ _ stroke width => [(key, stroke, width)]

end Addition

theorem placements_nodes (layout : RingLayout) (d : Design) :
    (placements layout d).flatMap Addition.nodes = placements layout d := by
  have each : ∀ a ∈ placements layout d, a.nodes = [a] := by
    intro a member
    obtain ⟨key, center, radius, fill, rfl⟩ := exists_eq_node_of_mem_placements member
    rfl
  generalize placements layout d = additions at each
  induction additions with
  | nil => rfl
  | cons a rest ih =>
      rw [List.flatMap_cons, each a List.mem_cons_self,
        ih fun b member => each b (List.mem_cons_of_mem _ member), List.singleton_append]

theorem placements_edgeLooks (layout : RingLayout) (d : Design) :
    (placements layout d).flatMap Addition.edgeLooks = [] := by
  rw [List.flatMap_eq_nil_iff]
  intro a member
  obtain ⟨key, center, radius, fill, rfl⟩ := exists_eq_node_of_mem_placements member
  rfl

theorem connections_nodes (d : Design) (plan : List EdgeKey) :
    (connections d plan).flatMap Addition.nodes = [] := by
  simp [connections, Addition.nodes]

theorem connections_edgeLooks (d : Design) (plan : List EdgeKey) :
    (connections d plan).flatMap Addition.edgeLooks =
      plan.map fun key => (key, d.palette.neutral, d.edgeWidth) := by
  simp only [connections, List.flatMap_map, Addition.edgeLooks, ← List.map_eq_flatMap]

/-- Where a layout has the node with a key. -/
def RingLayout.position? (layout : RingLayout) : NodeKey → Option Point
  | .ring i => layout.ring[i]?
  | .fan side => some (layout.fan side)

/-- The colour that a palette has for the node with a key. -/
def Palette.fill? (palette : Palette) : NodeKey → Option Color
  | .ring i => palette.ring[i]?
  | .fan _ => some palette.neutral

/-- A node is placed where the layout has it, in its colour. -/
theorem look_of_mem_placements {layout : RingLayout} {d : Design} {key : NodeKey} {center : Point}
    {radius : Float} {fill : Color}
    (member : .node key center radius fill ∈ placements layout d) :
    layout.position? key = some center ∧ d.palette.fill? key = some fill ∧
      radius = d.nodeRadius := by
  rcases List.mem_append.1 member with ring | fan
  · obtain ⟨⟨⟨center, fill⟩, i⟩, here, same⟩ := List.mem_map.1 ring
    cases same
    have place := List.mk_mem_zipIdx_iff_getElem?.1 here
    obtain ⟨position, color⟩ := List.getElem?_zip_eq_some.1 place
    exact ⟨position, color, rfl⟩
  · obtain ⟨side, _, same⟩ := List.mem_map.1 fan
    cases same
    exact ⟨rfl, rfl, rfl⟩

namespace Scene

/-- The scene of a design is the work of its nodes and then of its edges. -/
theorem ofDesign_eq_ok_iff {d : Design} {s : Scene} :
    ofDesign d = .ok s ↔ d.validate = .ok () ∧ ∃ standing,
      (empty d.canvas).addAll (placements d.layout d) = (standing, .ok ()) ∧
        standing.addAll (connections d edgePlan) = (s, .ok ()) := by
  rw [ofDesign, check_bind_eq_ok_iff]
  refine and_congr_right fun _ => ?_
  generalize (empty d.canvas).addAll (placements d.layout d) = nodes
  obtain ⟨standing, placed⟩ := nodes
  constructor
  · intro done
    obtain ⟨first, done⟩ := check_bind_eq_ok_iff.1 done
    obtain ⟨second, made⟩ := check_bind_eq_ok_iff.1 done
    cases made
    exact ⟨standing, Prod.ext rfl first, Prod.ext rfl second⟩
  · rintro ⟨_, same, joined⟩
    cases same
    exact check_bind_eq_ok_iff.2 ⟨rfl, check_bind_eq_ok_iff.2
      ⟨congrArg Prod.snd joined, congrArg Except.ok (congrArg Prod.fst joined)⟩⟩

/-- What is in the scene of a design. -/
structure Contents (d : Design) (s : Scene) : Prop where
  indexed : s.Indexed
  nodes : s.nodes.map Node.addition = placements d.layout d
  edges : s.edges.map Edge.look = edgePlan.map fun key => (key, d.palette.neutral, d.edgeWidth)

/-- A successful addition puts what it brings after the others. -/
theorem add_contents {s after : Scene} {a : Addition} {ref : ElementRef}
    (added : s.add a = .ok (ref, after)) :
    after.nodes.map Node.addition = s.nodes.map Node.addition ++ a.nodes ∧
      after.edges.map Edge.look = s.edges.map Edge.look ++ a.edgeLooks := by
  rcases add_cases added with
    ⟨key, center, radius, fill, rfl, _, _, rfl⟩ |
    ⟨key, source, target, stroke, width, start, stop, rfl, _, _, _, _, _, rfl⟩
  · simp [pushNode, Node.addition, Addition.nodes, Addition.edgeLooks]
  · simp [pushEdge, Edge.look, Addition.nodes, Addition.edgeLooks]

theorem ofDesign_contents {d : Design} {s : Scene} (made : ofDesign d = .ok s) : s.Contents d := by
  obtain ⟨_, standing, placed, joined⟩ := ofDesign_eq_ok_iff.1 made
  have placedOk : ((empty d.canvas).addAll (placements d.layout d)).2 = .ok () := by rw [placed]
  have joinedOk : (standing.addAll (connections d edgePlan)).2 = .ok () := by rw [joined]
  have indexed := (Indexed.empty d.canvas).addAll (placements d.layout d)
  have nodes := addAll_collect (fun added => (add_contents added).1) placedOk
  have noEdges := addAll_collect (fun added => (add_contents added).2) placedOk
  have sameNodes := addAll_collect (fun added => (add_contents added).1) joinedOk
  have edges := addAll_collect (fun added => (add_contents added).2) joinedOk
  rw [placed] at indexed nodes noEdges
  rw [joined] at sameNodes edges
  have complete := indexed.addAll (connections d edgePlan)
  rw [joined] at complete
  refine ⟨complete, ?_, ?_⟩
  · rw [sameNodes, nodes, connections_nodes, placements_nodes, List.append_nil]
    rfl
  · rw [edges, noEdges, placements_edgeLooks, connections_edgeLooks]
    rfl

namespace Contents

variable {d : Design} {s : Scene}

theorem node_look (contents : s.Contents d) {n : Node} (member : n ∈ s.nodes) :
    d.layout.position? n.key = some n.center ∧ d.palette.fill? n.key = some n.fill ∧
      n.radius = d.nodeRadius := by
  have listed : n.addition ∈ s.nodes.map Node.addition := List.mem_map_of_mem member
  rw [contents.nodes] at listed
  exact look_of_mem_placements listed

theorem edge_look (contents : s.Contents d) {e : Edge} (member : e ∈ s.edges) :
    e.stroke = d.palette.neutral ∧ e.width = d.edgeWidth := by
  have listed : e.look ∈ s.edges.map Edge.look := List.mem_map_of_mem member
  rw [contents.edges] at listed
  obtain ⟨key, _, same⟩ := List.mem_map.1 listed
  obtain ⟨_, rest⟩ := Prod.mk.inj same
  obtain ⟨stroke, width⟩ := Prod.mk.inj rest
  exact ⟨stroke.symm, width.symm⟩

end Contents

end Scene

end Emblem
