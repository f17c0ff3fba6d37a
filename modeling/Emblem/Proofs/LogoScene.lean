/-
Module: Emblem.Proofs.LogoScene
Purpose: The scene of a design, element by element. Only the check of the design can refuse it;
  otherwise its nodes stand where the layout has them, in the colours of the palette, and the edges of
  the plan run between them.
Main exports: Scene.Contents.edge_positions, Scene.designCalls, Scene.run_designCalls, Scene.IsLogo,
  Scene.ofDesign_isLogo
-/
import Emblem.Proofs.RingEdges
import Emblem.Proofs.SceneContents
import Emblem.Proofs.SceneGrowth

namespace Emblem

namespace Scene

namespace Contents

variable {d : Design} {s : Scene}

/-- An edge between the nodes with two keys runs between the positions of these keys. -/
theorem edge_positions (contents : s.Contents d) {e : Edge} (member : e ∈ s.edges)
    {source target : NodeKey} (spans : s.Spans e source target) :
    d.layout.position? source = some e.sourcePoint ∧
      d.layout.position? target = some e.targetPoint := by
  obtain ⟨a, b, start, stop, rfl, rfl⟩ := spans
  obtain ⟨_, a', b', start', stop', from', to'⟩ := contents.indexed.joins e member
  rw [start] at start'
  rw [stop] at stop'
  cases start'
  cases stop'
  rw [from', to']
  exact ⟨(contents.node_look (List.mem_of_getElem? start)).1,
    (contents.node_look (List.mem_of_getElem? stop)).1⟩

end Contents

/-- The calls that make up the scene of a design. -/
def designCalls (d : Design) : List Call :=
  [.place d.layout d, .connect edgePlan d]

theorem run_designCalls {d : Design} {s : Scene} (made : ofDesign d = .ok s) :
    (empty d.canvas).run (designCalls d) = s := by
  obtain ⟨_, standing, placed, joined⟩ := ofDesign_eq_ok_iff.1 made
  simp only [designCalls, run, List.foldl_cons, List.foldl_nil, after, placed, joined]

/-- The edges of the scene of a design run between the nodes that their keys name. -/
theorem spans_of_ofDesign {d : Design} {s : Scene} (made : ofDesign d = .ok s) {e : Edge}
    (member : e ∈ s.edges) : s.Spans e e.key.ends.1 e.key.ends.2 := by
  have plansOnly : ∀ call ∈ designCalls d, call.AddsPlansOnly := by
    intro call asked
    simp only [designCalls, List.mem_cons, List.not_mem_nil, or_false] at asked
    rcases asked with rfl | rfl <;> trivial
  have wired := wired_run_empty d.canvas plansOnly
  rw [run_designCalls made] at wired
  exact (wired e member).2

/-- A scene is the logo of a design. -/
structure IsLogo (s : Scene) (d : Design) : Prop where
  canvas : s.canvas = d.canvas
  nodeKeys : s.nodes.map (·.key) = [.ring 0, .ring 1, .ring 2, .ring 3, .ring 4, .ring 5,
    .fan .left, .fan .right]
  ringNode : ∀ n ∈ s.nodes, ∀ i, n.key = .ring i →
    d.layout.ring[i]? = some n.center ∧ d.palette.ring[i]? = some n.fill
  fanNode : ∀ n ∈ s.nodes, ∀ side, n.key = .fan side →
    n.center = d.layout.fan side ∧ n.fill = d.palette.neutral
  radius : ∀ n ∈ s.nodes, n.radius = d.nodeRadius
  edgeKeys : s.edges.map (·.key) = edgePlan
  stroke : ∀ e ∈ s.edges, e.stroke = d.palette.neutral
  width : ∀ e ∈ s.edges, e.width = d.edgeWidth
  /-- A fan edge comes from the fan node and goes to the ring node that is nearest to it. -/
  fanEdge : ∀ e ∈ s.edges, ∀ side, e.key = .fan side →
    s.Spans e (.fan side) (.ring side.anchor) ∧ e.sourcePoint = d.layout.fan side ∧
      d.layout.ring[side.anchor]? = some e.targetPoint
  ringEdge : ∀ e ∈ s.edges, ∀ i j, e.key = .ring i j →
    s.Spans e (.ring i) (.ring j) ∧ d.layout.ring[i]? = some e.sourcePoint ∧
      d.layout.ring[j]? = some e.targetPoint

theorem isLogo_of_ofDesign {d : Design} {s : Scene} (made : ofDesign d = .ok s) :
    s.IsLogo d := by
  have contents := ofDesign_contents made
  have grows := Grows.run (empty d.canvas) (designCalls d)
  rw [run_designCalls made] at grows
  obtain ⟨s', made', _, nodeKeys, edgeKeys⟩ := exists_ofDesign (ofDesign_eq_ok_iff.1 made).1
  rw [made] at made'
  cases made'
  refine ⟨grows.canvas, nodeKeys, ?_, ?_, ?_, edgeKeys, ?_, ?_, ?_, ?_⟩
  · intro n member i named
    obtain ⟨position, color, _⟩ := contents.node_look member
    rw [named] at position color
    exact ⟨position, color⟩
  · intro n member side named
    obtain ⟨position, color, _⟩ := contents.node_look member
    rw [named] at position color
    exact ⟨(Option.some.inj position).symm, (Option.some.inj color).symm⟩
  · intro n member
    exact (contents.node_look member).2.2
  · intro e member
    exact (contents.edge_look member).1
  · intro e member
    exact (contents.edge_look member).2
  · intro e member side named
    have spans := spans_of_ofDesign made member
    rw [named] at spans
    obtain ⟨first, last⟩ := contents.edge_positions member spans
    exact ⟨spans, (Option.some.inj first).symm, last⟩
  · intro e member i j named
    have spans := spans_of_ofDesign made member
    rw [named] at spans
    obtain ⟨first, last⟩ := contents.edge_positions member spans
    exact ⟨spans, first, last⟩

/-- A design is refused a scene just as the check refuses it, and otherwise the scene is its logo. -/
theorem ofDesign_isLogo (d : Design) :
    (∀ e, ofDesign d = .error e ↔ d.validate = .error e) ∧
      ((∃ s, ofDesign d = .ok s) ↔ d.validate = .ok ()) ∧
      ∀ s, ofDesign d = .ok s → s.IsLogo d := by
  refine ⟨?_, ?_, fun s => isLogo_of_ofDesign⟩
  · intro e
    constructor
    · intro refused
      cases check : d.validate with
      | error e' =>
          have early : ofDesign d = .error e' := check_bind_eq_error_iff.2 (.inl check)
          rw [early] at refused
          cases refused
          rfl
      | ok u =>
          obtain ⟨s, made, _⟩ := exists_ofDesign check
          rw [made] at refused
          cases refused
    · intro check
      exact check_bind_eq_error_iff.2 (.inl check)
  · constructor
    · rintro ⟨s, made⟩
      exact (ofDesign_eq_ok_iff.1 made).1
    · intro passed
      obtain ⟨s, made, _⟩ := exists_ofDesign passed
      exact ⟨s, made⟩

end Scene

end Emblem
