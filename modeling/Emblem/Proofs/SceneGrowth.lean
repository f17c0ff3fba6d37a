/-
Module: Emblem.Proofs.SceneGrowth
Purpose: What an addition does to a scene. It is accepted just if it is legal beside the keys that are
  there. One that is refused has a first reason and changes nothing; one that is accepted puts a single
  element after the others, and all that could be found before is found for good.
Main exports: Addition.Refused, Scene.Indexed.add_eq_error_iff, Scene.Appends, Scene.Grows,
  Scene.Grows.run, Scene.Retains, Scene.AddsExactly, Scene.run_addsExactly
-/
import Emblem.Proofs.Legality

namespace Emblem

namespace Addition

/-- Why an addition is refused beside these keys. Each reason supposes that those before it do not
apply. -/
inductive Refused (nodes : List NodeKey) (edges : List EdgeKey) : Addition → Error → Prop where
  | duplicateNode {key : NodeKey} {center : Point} {radius : Float} {fill : Color}
      (taken : key ∈ nodes) :
      Refused nodes edges (.node key center radius fill) (.duplicateNode key)
  | duplicateEdge {key : EdgeKey} {source target : NodeKey} {stroke : Color} {width : Float}
      (taken : key ∈ edges) :
      Refused nodes edges (.edge key source target stroke width) (.duplicateEdge key)
  | unplacedSource {key : EdgeKey} {source target : NodeKey} {stroke : Color} {width : Float}
      (fresh : key ∉ edges) (missing : source ∉ nodes) :
      Refused nodes edges (.edge key source target stroke width) (.unplacedEnd source)
  | unplacedTarget {key : EdgeKey} {source target : NodeKey} {stroke : Color} {width : Float}
      (fresh : key ∉ edges) (placed : source ∈ nodes) (missing : target ∉ nodes) :
      Refused nodes edges (.edge key source target stroke width) (.unplacedEnd target)
  | selfLoop {key : EdgeKey} {both : NodeKey} {stroke : Color} {width : Float}
      (fresh : key ∉ edges) (placed : both ∈ nodes) :
      Refused nodes edges (.edge key both both stroke width) (.selfLoop key)

namespace Refused

variable {nodes : List NodeKey} {edges : List EdgeKey} {a : Addition} {e : Error}

theorem not_legal (refused : a.Refused nodes edges e) : ¬a.Legal nodes edges := by
  intro legal
  cases refused with
  | duplicateNode taken => exact legal taken
  | duplicateEdge taken => exact legal.1 taken
  | unplacedSource _ missing => exact missing legal.2.1
  | unplacedTarget _ _ missing => exact missing legal.2.2.1
  | selfLoop => exact legal.2.2.2 rfl

/-- There is one first reason. -/
theorem deterministic {e' : Error} (one : a.Refused nodes edges e)
    (two : a.Refused nodes edges e') : e = e' := by
  cases one with
  | duplicateNode => cases two with
    | duplicateNode => rfl
  | duplicateEdge taken => cases two with
    | duplicateEdge => rfl
    | unplacedSource fresh => exact absurd taken fresh
    | unplacedTarget fresh => exact absurd taken fresh
    | selfLoop fresh => exact absurd taken fresh
  | unplacedSource fresh missing => cases two with
    | duplicateEdge taken => exact absurd taken fresh
    | unplacedSource => rfl
    | unplacedTarget _ placed => exact absurd placed missing
    | selfLoop _ placed => exact absurd placed missing
  | unplacedTarget fresh placed missing => cases two with
    | duplicateEdge taken => exact absurd taken fresh
    | unplacedSource _ absent => exact absurd placed absent
    | unplacedTarget => rfl
    | selfLoop _ there => exact absurd there missing
  | selfLoop fresh placed => cases two with
    | duplicateEdge taken => exact absurd taken fresh
    | unplacedSource _ absent => exact absurd placed absent
    | unplacedTarget _ _ absent => exact absurd placed absent
    | selfLoop => rfl

end Refused

end Addition

namespace Scene

variable {s grown : Scene}

/-! ### Refusals -/

theorem Indexed.findEnd_eq_error_iff (indexed : s.Indexed) {key : NodeKey} {e : Error} :
    s.findEnd key = .error e ↔ key ∉ s.nodeKeys ∧ e = .unplacedEnd key := by
  rw [← indexed.nodeIndex.find?_eq_none_iff]
  unfold findEnd
  cases s.nodeIndex.find? key with
  | none => simp [eq_comm]
  | some id => simp

/-- What an addition is refused for is its first reason. -/
theorem Indexed.refused_of_add (indexed : s.Indexed) {a : Addition} {e : Error}
    (failed : s.add a = .error e) : a.Refused s.nodeKeys s.edgeKeys e := by
  cases a with
  | node key center radius fill =>
      have failed := map_eq_error_iff.1 failed
      unfold addNode at failed
      cases found : s.nodeIndex.find? key with
      | none =>
          rw [found] at failed
          cases failed
      | some id =>
          rw [found] at failed
          cases failed
          exact .duplicateNode (indexed.nodeIndex.exists_find?_iff.1 ⟨id, found⟩)
  | edge key source target stroke width =>
      have failed := map_eq_error_iff.1 failed
      unfold addEdge at failed
      -- Each check is reached only when those before it have passed.
      cases found : s.edgeIndex.find? key with
      | some id =>
          rw [found] at failed
          cases failed
          exact .duplicateEdge (indexed.edgeIndex.exists_find?_iff.1 ⟨id, found⟩)
      | none =>
          have fresh := indexed.edgeIndex.find?_eq_none_iff.1 found
          rw [found] at failed
          rcases bind_eq_error_iff.1 failed with noStart | ⟨start, first, failed⟩
          · obtain ⟨missing, rfl⟩ := indexed.findEnd_eq_error_iff.1 noStart
            exact .unplacedSource fresh missing
          have placed := indexed.exists_findEnd_iff.1 ⟨start, first⟩
          rcases bind_eq_error_iff.1 failed with noStop | ⟨stop, last, failed⟩
          · obtain ⟨missing, rfl⟩ := indexed.findEnd_eq_error_iff.1 noStop
            exact .unplacedTarget fresh placed missing
          by_cases loop : start.1 = stop.1
          · rw [if_pos loop] at failed
            cases failed
            have same : source = target := by
              by_contra different
              exact (indexed.findEnd_ne first last).2 different loop
            subst same
            exact .selfLoop fresh placed
          · rw [if_neg loop] at failed
            cases failed

/-- A scene in step refuses the illegal additions, each for its first reason. -/
theorem Indexed.add_eq_error_iff (indexed : s.Indexed) {a : Addition} {e : Error} :
    s.add a = .error e ↔ a.Refused s.nodeKeys s.edgeKeys e := by
  constructor
  · exact indexed.refused_of_add
  · intro refused
    cases added : s.add a with
    | ok result => exact absurd (indexed.exists_add_iff.1 ⟨result, added⟩) refused.not_legal
    | error e' => rw [(indexed.refused_of_add added).deterministic refused]

/-! ### Growth -/

/-- A scene begins with the nodes and the edges of another one, on the same canvas. -/
structure Grows (s grown : Scene) : Prop where
  canvas : grown.canvas = s.canvas
  nodes : s.nodes <+: grown.nodes
  edges : s.edges <+: grown.edges

namespace Grows

theorem refl (s : Scene) : s.Grows s :=
  ⟨rfl, List.prefix_refl _, List.prefix_refl _⟩

theorem trans {middle : Scene} (first : s.Grows middle) (last : middle.Grows grown) :
    s.Grows grown :=
  ⟨last.canvas.trans first.canvas, first.nodes.trans last.nodes, first.edges.trans last.edges⟩

theorem add {a : Addition} {ref : ElementRef} (added : s.add a = .ok (ref, grown)) :
    s.Grows grown := by
  rcases add_cases added with
    ⟨key, center, radius, fill, _, _, _, rfl⟩ |
    ⟨key, source, target, stroke, width, start, stop, _, _, _, _, _, _, rfl⟩
  · exact ⟨rfl, List.prefix_append _ _, List.prefix_refl _⟩
  · exact ⟨rfl, List.prefix_refl _, List.prefix_append _ _⟩

theorem addAll (s : Scene) (additions : List Addition) : s.Grows (s.addAll additions).1 := by
  induction additions generalizing s with
  | nil => exact refl s
  | cons a rest ih =>
      unfold Scene.addAll
      cases added : s.add a with
      | error e => exact refl s
      | ok result =>
          obtain ⟨ref, longer⟩ := result
          exact (Grows.add added).trans (ih longer)

/-- A call takes nothing away. -/
theorem after (s : Scene) (call : Call) : s.Grows (s.after call) := by
  cases call with
  | add a =>
      simp only [Scene.after]
      cases added : s.add a with
      | error e => exact refl s
      | ok result =>
          obtain ⟨ref, longer⟩ := result
          exact Grows.add added
  | place layout d => exact addAll s (placements layout d)
  | connect plan d => exact addAll s (connections d plan)

/-- Nor does a whole run. -/
theorem run (s : Scene) (calls : List Call) : s.Grows (s.run calls) := by
  induction calls generalizing s with
  | nil => exact refl s
  | cons call rest ih => exact (Grows.after s call).trans (ih (s.after call))

end Grows

/-- All that is found in one scene, by handle or by key, is found in another. -/
structure Retains (s grown : Scene) : Prop where
  node : ∀ id n, s.node id = .ok n → grown.node id = .ok n
  edge : ∀ id e, s.edge id = .ok e → grown.edge id = .ok e
  nodeByKey : ∀ key n, s.nodeByKey key = .ok n → grown.nodeByKey key = .ok n
  edgeByKey : ∀ key e, s.edgeByKey key = .ok e → grown.edgeByKey key = .ok e

/-- A scene in step that has grown has lost nothing. -/
theorem Grows.retains (grows : s.Grows grown) (before : s.Indexed) (indexed : grown.Indexed) :
    s.Retains grown where
  node := by
    intro id n found
    apply Indexed.node_eq_ok_iff.2
    exact getElem?_of_prefix grows.nodes (Indexed.node_eq_ok_iff.1 found)
  edge := by
    intro id e found
    apply Indexed.edge_eq_ok_iff.2
    exact getElem?_of_prefix grows.edges (Indexed.edge_eq_ok_iff.1 found)
  nodeByKey := by
    intro key n found
    obtain ⟨member, named⟩ := before.nodeByKey_eq_ok_iff.1 found
    exact indexed.nodeByKey_eq_ok_iff.2 ⟨grows.nodes.subset member, named⟩
  edgeByKey := by
    intro key e found
    obtain ⟨member, named⟩ := before.edgeByKey_eq_ok_iff.1 found
    exact indexed.edgeByKey_eq_ok_iff.2 ⟨grows.edges.subset member, named⟩

/-- An addition has put one element after the others of its kind, under the next handle. The ends of
an edge are the nodes with the keys that it was asked for. -/
inductive Appends (s grown : Scene) : Addition → ElementRef → Prop where
  | node {key : NodeKey} {center : Point} {radius : Float} {fill : Color}
      (nodes : grown.nodes = s.nodes ++ [⟨⟨s.nodes.length⟩, key, center, radius, fill⟩])
      (edges : grown.edges = s.edges) :
      Appends s grown (.node key center radius fill) (.node ⟨s.nodes.length⟩)
  | edge {key : EdgeKey} {source target : NodeKey} {stroke : Color} {width : Float} {a b : Node}
      (first : s.nodeByKey source = .ok a) (last : s.nodeByKey target = .ok b)
      (nodes : grown.nodes = s.nodes)
      (edges : grown.edges = s.edges ++
        [⟨⟨s.edges.length⟩, key, a.id, b.id, a.center, b.center, stroke, width⟩]) :
      Appends s grown (.edge key source target stroke width) (.edge ⟨s.edges.length⟩)

/-- The end of an edge is the node that a lookup of its key finds. -/
theorem Indexed.exists_nodeByKey_of_findEnd (indexed : s.Indexed) {key : NodeKey}
    {stop : NodeId × Point} (found : s.findEnd key = .ok stop) :
    ∃ n, s.nodeByKey key = .ok n ∧ stop = (n.id, n.center) := by
  obtain ⟨id, p⟩ := stop
  obtain ⟨n, place, named, rfl⟩ := indexed.findEnd_eq_ok_iff.1 found
  have handle := indexed.node_id id.index n place
  refine ⟨n, indexed.nodeByKey_eq_ok_iff.2 ⟨List.mem_of_getElem? place, named⟩, ?_⟩
  rw [handle]

theorem Indexed.appends (indexed : s.Indexed) {a : Addition} {ref : ElementRef}
    (added : s.add a = .ok (ref, grown)) : s.Appends grown a ref := by
  rcases add_cases added with
    ⟨key, center, radius, fill, rfl, _, rfl, rfl⟩ |
    ⟨key, source, target, stroke, width, start, stop, rfl, _, first, last, _, rfl, rfl⟩
  · exact .node rfl rfl
  · obtain ⟨a, found, rfl⟩ := indexed.exists_nodeByKey_of_findEnd first
    obtain ⟨b, found', rfl⟩ := indexed.exists_nodeByKey_of_findEnd last
    exact .edge found found' rfl rfl

/-- What holds of additions to a scene. -/
structure AddsExactly (s : Scene) : Prop where
  accepted_iff : ∀ a : Addition, (∃ result, s.add a = .ok result) ↔ a.Legal s.nodeKeys s.edgeKeys
  refused_iff : ∀ (a : Addition) (e : Error),
    s.add a = .error e ↔ a.Refused s.nodeKeys s.edgeKeys e
  refused_after : ∀ (a : Addition) (e : Error), s.add a = .error e → s.after (.add a) = s
  appended : ∀ (a : Addition) (ref : ElementRef) (grown : Scene), s.add a = .ok (ref, grown) →
    s.after (.add a) = grown ∧ s.Appends grown a ref ∧ grown.Indexed
  /-- Nothing is lost by an addition, nor by any calls after it. -/
  retained : ∀ (a : Addition) (ref : ElementRef) (grown : Scene), s.add a = .ok (ref, grown) →
    ∀ calls, s.Retains (grown.run calls)

/-- Whatever calls have made a scene, refused ones among them, it takes further additions exactly. -/
theorem run_addsExactly (canvas : Canvas) (calls : List Call) :
    ((empty canvas).run calls).AddsExactly := by
  have indexed := (Indexed.empty canvas).run calls
  generalize (empty canvas).run calls = s at indexed
  constructor
  · intro a
    exact indexed.exists_add_iff
  · intro a e
    exact indexed.add_eq_error_iff
  · intro a e failed
    simp only [Scene.after, failed]
  · intro a ref grown added
    refine ⟨?_, indexed.appends added, indexed.add added⟩
    simp only [Scene.after, added]
  · intro a ref grown added more
    have grows := (Grows.add added).trans (Grows.run grown more)
    exact grows.retains indexed ((indexed.add added).run more)

end Scene

end Emblem
