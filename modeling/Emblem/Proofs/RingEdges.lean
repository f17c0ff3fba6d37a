/-
Module: Emblem.Proofs.RingEdges
Purpose: Ring edges of scenes whose edges come from plans. An edge runs between the nodes that its key
  names, in the direction of the key, and keys are taken as the plans give them. So the keys are in
  order just as far as the plans are, a pair of nodes is joined twice if it is planned in both
  directions, and the turned key of an edge never finds that edge.
Main exports: Scene.Spans, Scene.Wired, Scene.OrderedKeys, Scene.SingleEdges, Scene.FoundEitherWay,
  Scene.run_ringEdges, Scene.run_bothDirections
-/
import Emblem.Proofs.Legality
import Emblem.Timeline.Script

namespace Emblem

/-- An addition that brings no edge, or an admitted one between the nodes that its key names. -/
def Addition.Fits (admitted : EdgeKey → Prop) : Addition → Prop
  | node .. => True
  | edge key source target _ _ => admitted key ∧ key.ends = (source, target)

namespace Scene

/-- A call that adds no edge but those of a plan. -/
def Call.AddsPlansOnly : Call → Prop
  | .add (.edge ..) => False
  | _ => True

/-- Whether a plan among these calls has an edge. -/
def IsPlanned (calls : List Call) (key : EdgeKey) : Prop :=
  ∃ plan d, Call.connect plan d ∈ calls ∧ key ∈ plan

/-- An edge runs from the node with one key to the node with another. -/
def Spans (s : Scene) (e : Edge) (source target : NodeKey) : Prop :=
  ∃ a b, s.nodes[e.source.index]? = some a ∧ s.nodes[e.target.index]? = some b ∧
    a.key = source ∧ b.key = target

/-- An edge joins two ring nodes, in one direction or the other. -/
def JoinsRing (s : Scene) (e : Edge) (i j : Nat) : Prop :=
  s.Spans e (.ring i) (.ring j) ∨ s.Spans e (.ring j) (.ring i)

/-- Every edge is admitted and runs between the nodes that its key names. -/
def Wired (admitted : EdgeKey → Prop) (s : Scene) : Prop :=
  ∀ e ∈ s.edges, admitted e.key ∧ s.Spans e e.key.ends.1 e.key.ends.2

/-- The key of a ring edge names the smaller index first. -/
def OrderedKeys (s : Scene) : Prop :=
  ∀ e ∈ s.edges, ∀ i j, e.key = .ring i j → i < j

/-- No two edges join the same two ring nodes. -/
def SingleEdges (s : Scene) : Prop :=
  ∀ e ∈ s.edges, ∀ e' ∈ s.edges, ∀ i j, s.JoinsRing e i j → s.JoinsRing e' i j → e = e'

/-- A cue finds a ring edge by its key and by the turned key. -/
def FoundEitherWay (s : Scene) : Prop :=
  ∀ i j e, s.edgeByKey (.ring i j) = .ok e → s.resolve (.edge (.ring j i)) = .ok (.edge e.id)

section Wiring

variable {s grown : Scene} {admitted : EdgeKey → Prop}

/-- Nodes put after the others leave the ends of an edge where they are. -/
theorem Spans.append {e : Edge} {source target : NodeKey} {more : List Node}
    (spans : s.Spans e source target) (longer : grown.nodes = s.nodes ++ more) :
    grown.Spans e source target := by
  obtain ⟨a, b, start, stop, named⟩ := spans
  have grows : s.nodes <+: grown.nodes := ⟨more, longer.symm⟩
  exact ⟨a, b, getElem?_of_prefix grows start, getElem?_of_prefix grows stop, named⟩

/-- An edge has one node at each end. -/
theorem Spans.unique {e : Edge} {source target source' target' : NodeKey}
    (first : s.Spans e source target) (second : s.Spans e source' target') :
    source = source' ∧ target = target' := by
  obtain ⟨a, b, start, stop, rfl, rfl⟩ := first
  obtain ⟨a', b', start', stop', rfl, rfl⟩ := second
  rw [start] at start'
  rw [stop] at stop'
  cases start'
  cases stop'
  exact ⟨rfl, rfl⟩

/-- One addition that fits keeps a scene wired. -/
theorem Wired.add (wired : s.Wired admitted) (indexed : s.Indexed) {a : Addition}
    (fits : a.Fits admitted) {ref : ElementRef} (added : s.add a = .ok (ref, grown)) :
    grown.Wired admitted := by
  intro e member
  rcases add_cases added with
    ⟨key, center, radius, fill, _, _, _, rfl⟩ |
    ⟨key, source, target, stroke, width, start, stop, rfl, _, first, last, _, _, rfl⟩
  · obtain ⟨here, spans⟩ := wired e member
    exact ⟨here, spans.append rfl⟩
  · have sameNodes : (s.pushEdge key start stop stroke width).nodes = s.nodes ++ [] :=
      (List.append_nil _).symm
    rcases List.mem_append.1 member with earlier | new
    · obtain ⟨here, spans⟩ := wired e earlier
      exact ⟨here, spans.append sameNodes⟩
    · obtain ⟨here, ends⟩ := fits
      obtain ⟨a, begins, named, _⟩ := indexed.findEnd_eq_ok_iff.1 first
      obtain ⟨b, finishes, called, _⟩ := indexed.findEnd_eq_ok_iff.1 last
      rw [List.mem_singleton.1 new, ends]
      exact ⟨here, a, b, begins, finishes, named, called⟩

/-- So does a list of them, also one that stops at a refusal. -/
theorem Wired.addAll (wired : s.Wired admitted) (indexed : s.Indexed) {additions : List Addition}
    (fit : ∀ a ∈ additions, a.Fits admitted) : (s.addAll additions).1.Wired admitted := by
  induction additions generalizing s with
  | nil => exact wired
  | cons a rest ih =>
      unfold Scene.addAll
      cases added : s.add a with
      | error e => exact wired
      | ok result =>
          obtain ⟨ref, longer⟩ := result
          exact ih (wired.add indexed (fit a List.mem_cons_self) added) (indexed.add added)
            fun b member => fit b (List.mem_cons_of_mem _ member)

theorem fits_of_mem_placements {layout : RingLayout} {d : Design} {a : Addition}
    (member : a ∈ placements layout d) : a.Fits admitted := by
  obtain ⟨key, center, radius, fill, rfl⟩ := exists_eq_node_of_mem_placements member
  trivial

/-- One call keeps a scene wired if the edges of its plan are admitted. -/
theorem Wired.after (wired : s.Wired admitted) (indexed : s.Indexed) {call : Call}
    (plansOnly : call.AddsPlansOnly) (planned : ∀ key, IsPlanned [call] key → admitted key) :
    (s.after call).Wired admitted := by
  cases call with
  | add a =>
      cases a with
      | edge key source target stroke width => cases plansOnly
      | node key center radius fill =>
          have fits : (Addition.node key center radius fill).Fits admitted := trivial
          simp only [Scene.after]
          cases added : s.add (.node key center radius fill) with
          | error e => exact wired
          | ok result =>
              obtain ⟨ref, longer⟩ := result
              exact wired.add indexed fits added
  | place layout d => exact wired.addAll indexed fun _ member => fits_of_mem_placements member
  | connect plan d =>
      refine wired.addAll indexed ?_
      intro a member
      obtain ⟨key, here, rfl⟩ := List.mem_map.1 member
      exact ⟨planned key ⟨plan, d, List.mem_cons_self, here⟩, rfl⟩

/-- A whole run keeps a scene wired if the edges of all its plans are admitted. -/
theorem Wired.run (wired : s.Wired admitted) (indexed : s.Indexed) {calls : List Call}
    (plansOnly : ∀ call ∈ calls, call.AddsPlansOnly)
    (planned : ∀ key, IsPlanned calls key → admitted key) : (s.run calls).Wired admitted := by
  induction calls generalizing s with
  | nil => exact wired
  | cons call rest ih =>
      refine ih (wired.after indexed (plansOnly call List.mem_cons_self) ?_) (indexed.after call)
        (fun other member => plansOnly other (List.mem_cons_of_mem _ member)) ?_
      · rintro key ⟨plan, d, here, member⟩
        have first : Call.connect plan d ∈ call :: rest := by
          rw [List.mem_singleton.1 here]
          exact List.mem_cons_self
        exact planned key ⟨plan, d, first, member⟩
      · rintro key ⟨plan, d, there, member⟩
        exact planned key ⟨plan, d, List.mem_cons_of_mem _ there, member⟩

theorem wired_run_empty (canvas : Canvas) {calls : List Call}
    (plansOnly : ∀ call ∈ calls, call.AddsPlansOnly) :
    ((empty canvas).run calls).Wired (IsPlanned calls) := by
  have unwired : (empty canvas).Wired (IsPlanned calls) := by
    intro e member
    cases member
  exact unwired.run (.empty canvas) plansOnly fun _ planned => planned

end Wiring

section Wired

variable {s : Scene} {admitted : EdgeKey → Prop}

/-- Of a wired edge between two ring nodes, the key tells which and in which direction. -/
theorem Wired.key_of_spans (wired : s.Wired admitted) {e : Edge} (member : e ∈ s.edges) {i j : Nat}
    (spans : s.Spans e (.ring i) (.ring j)) : e.key = .ring i j := by
  obtain ⟨start, stop⟩ := (wired e member).2.unique spans
  cases shape : e.key with
  | fan side =>
      rw [shape] at start
      cases start
  | ring k l =>
      rw [shape] at start stop
      cases start
      cases stop
      rfl

/-- No ring edge runs from a node to itself. -/
theorem Wired.ne_of_key (wired : s.Wired admitted) (indexed : s.Indexed) {e : Edge}
    (member : e ∈ s.edges) {i j : Nat} (named : e.key = .ring i j) : i ≠ j := by
  rintro rfl
  obtain ⟨a, b, start, stop, first, last⟩ := (wired e member).2
  rw [named] at first last
  have one := indexed.find?_node.2 ⟨a, start, first⟩
  have other := indexed.find?_node.2 ⟨b, stop, last⟩
  exact (indexed.joins e member).1 (Option.some.inj (one.symm.trans other))

/-- Two ring nodes are joined once just if no key stands in the scene in both directions. -/
theorem Wired.singleEdges_iff (wired : s.Wired admitted) (indexed : s.Indexed) :
    s.SingleEdges ↔ ∀ i j, .ring i j ∈ s.edgeKeys → .ring j i ∉ s.edgeKeys := by
  have spans : ∀ {e : Edge} {i j : Nat}, e ∈ s.edges → e.key = .ring i j →
      s.Spans e (.ring i) (.ring j) := by
    intro e i j member named
    have ends := (wired e member).2
    rw [named] at ends
    exact ends
  have same : ∀ {e e' : Edge}, e ∈ s.edges → e' ∈ s.edges → e.key = e'.key → e = e' := by
    intro e e' here there named
    have found := indexed.edgeByKey_eq_ok_iff.2 ⟨here, named⟩
    rw [indexed.edgeByKey_eq_ok_iff.2 ⟨there, rfl⟩] at found
    exact (Except.ok.inj found).symm
  constructor
  · intro single i j forward backward
    obtain ⟨e, here, named⟩ := List.mem_map.1 forward
    obtain ⟨e', there, turned⟩ := List.mem_map.1 backward
    have joined := single e here e' there i j (.inl (spans here named)) (.inr (spans there turned))
    rw [joined, turned] at named
    have loop : j = i := (EdgeKey.ring.inj named).1
    exact wired.ne_of_key indexed there turned loop
  · intro oneWay e here e' there i j first second
    have listed : ∀ {e : Edge} {key : EdgeKey}, e ∈ s.edges → e.key = key → key ∈ s.edgeKeys :=
      fun member named => List.mem_map.2 ⟨_, member, named⟩
    rcases first with forward | backward <;> rcases second with forward' | backward'
    · exact same here there
        ((wired.key_of_spans here forward).trans (wired.key_of_spans there forward').symm)
    · exact absurd (listed there (wired.key_of_spans there backward'))
        (oneWay i j (listed here (wired.key_of_spans here forward)))
    · exact absurd (listed here (wired.key_of_spans here backward))
        (oneWay i j (listed there (wired.key_of_spans there forward')))
    · exact same here there
        ((wired.key_of_spans here backward).trans (wired.key_of_spans there backward').symm)

/-- A turned key finds another edge, or nothing. -/
theorem Wired.resolve_turned (wired : s.Wired admitted) (indexed : s.Indexed) {i j : Nat} {e : Edge}
    (found : s.edgeByKey (.ring i j) = .ok e) :
    (∃ e' ∈ s.edges, e' ≠ e ∧ e'.key = .ring j i ∧
        s.resolve (.edge (.ring j i)) = .ok (.edge e'.id)) ∨
      (.ring j i ∉ s.edgeKeys ∧ s.resolve (.edge (.ring j i)) = .error (.noEdge (.ring j i))) := by
  obtain ⟨member, named⟩ := indexed.edgeByKey_eq_ok_iff.1 found
  by_cases turned : .ring j i ∈ s.edgeKeys
  · obtain ⟨e', there, named'⟩ := List.mem_map.1 turned
    refine .inl ⟨e', there, ?_, named', ?_⟩
    · rintro rfl
      rw [named] at named'
      exact wired.ne_of_key indexed member named (EdgeKey.ring.inj named').1
    · exact map_eq_ok_iff.2 ⟨e', indexed.edgeByKey_eq_ok_iff.2 ⟨there, named'⟩, rfl⟩
  · exact .inr ⟨turned, map_eq_error_iff.2 (indexed.edgeByKey_of_notMem turned)⟩

/-- Ring edges are found by either key only where there are none. -/
theorem Wired.foundEitherWay_iff (wired : s.Wired admitted) (indexed : s.Indexed) :
    s.FoundEitherWay ↔ ∀ e ∈ s.edges, ∀ i j, e.key ≠ .ring i j := by
  constructor
  · intro either e member i j named
    have found := indexed.edgeByKey_eq_ok_iff.2 ⟨member, named⟩
    have back := either i j e found
    rcases wired.resolve_turned indexed found with ⟨e', there, other, _, turned⟩ | ⟨_, missing⟩
    · rw [back] at turned
      have handle : e.id = e'.id := ElementRef.edge.inj (Except.ok.inj turned)
      have here := indexed.edge_self member
      rw [handle, indexed.edge_self there] at here
      exact other (Except.ok.inj here)
    · rw [back] at missing
      cases missing
  · intro none i j e found
    obtain ⟨member, named⟩ := indexed.edgeByKey_eq_ok_iff.1 found
    exact absurd named (none e member i j)

end Wired

/-- What becomes of ring edges in a scene whose edges come from the plans of some calls. -/
structure RingEdges (s : Scene) (calls : List Call) : Prop where
  /-- A ring edge has a planned key and runs between the two nodes of that key. -/
  planned : ∀ e ∈ s.edges, ∀ i j, e.key = .ring i j →
    IsPlanned calls (.ring i j) ∧ i ≠ j ∧ s.Spans e (.ring i) (.ring j)
  orderedKeys : (∀ i j, IsPlanned calls (.ring i j) → i < j) → s.OrderedKeys
  singleEdges_of_ordered : s.OrderedKeys → s.SingleEdges
  singleEdges_iff : s.SingleEdges ↔ ∀ i j, .ring i j ∈ s.edgeKeys → .ring j i ∉ s.edgeKeys
  foundEitherWay_iff : s.FoundEitherWay ↔ ∀ e ∈ s.edges, ∀ i j, e.key ≠ .ring i j
  /-- A turned key leads to another edge, if that is planned too, and otherwise to none. -/
  turned : ∀ i j e, s.edgeByKey (.ring i j) = .ok e →
    (∃ e' ∈ s.edges, e' ≠ e ∧ e'.key = .ring j i ∧
        s.resolve (.edge (.ring j i)) = .ok (.edge e'.id)) ∨
      (.ring j i ∉ s.edgeKeys ∧ s.resolve (.edge (.ring j i)) = .error (.noEdge (.ring j i)))

/-- Whatever nodes, layouts and plans make up a scene, its ring edges are those of the plans, each in
its own direction. -/
theorem run_ringEdges (canvas : Canvas) (calls : List Call)
    (plansOnly : ∀ call ∈ calls, call.AddsPlansOnly) :
    ((empty canvas).run calls).RingEdges calls := by
  have indexed := (Indexed.empty canvas).run calls
  have wired := wired_run_empty canvas plansOnly
  refine ⟨?_, ?_, ?_, wired.singleEdges_iff indexed, wired.foundEitherWay_iff indexed,
    fun _ _ _ => wired.resolve_turned indexed⟩
  · intro e member i j named
    obtain ⟨planned, spans⟩ := wired e member
    rw [named] at planned spans
    exact ⟨planned, wired.ne_of_key indexed member named, spans⟩
  · intro ordered e member i j named
    have planned := (wired e member).1
    rw [named] at planned
    exact ordered i j planned
  · intro ordered
    rw [wired.singleEdges_iff indexed]
    intro i j forward backward
    obtain ⟨e, here, named⟩ := List.mem_map.1 forward
    obtain ⟨e', there, turned⟩ := List.mem_map.1 backward
    exact Nat.lt_asymm (ordered e here i j named) (ordered e' there j i turned)

/-- The calls that make up the standard scene. -/
def standardCalls : List Call :=
  [.place Design.standard.layout .standard, .connect edgePlan .standard]

theorem run_ringEdges_standard : (∀ call ∈ standardCalls, call.AddsPlansOnly) ∧
    ((empty .standard).run standardCalls).RingEdges standardCalls := by
  have plansOnly : ∀ call ∈ standardCalls, call.AddsPlansOnly := by
    intro call member
    simp only [standardCalls, List.mem_cons, List.not_mem_nil, or_false] at member
    rcases member with rfl | rfl <;> trivial
  exact ⟨plansOnly, run_ringEdges .standard standardCalls plansOnly⟩

/-- Two ring nodes, and a plan that joins them in both directions. -/
def bothDirections : List Call :=
  [.add (.node (.ring 0) ⟨0, 0⟩ 1 .neutralGray), .add (.node (.ring 1) ⟨9, 0⟩ 1 .neutralGray),
    .connect [.ring 1 0, .ring 0 1] .standard]

/-- A plan can name the greater index first, and can join two nodes twice; and in every scene with a
ring edge there is a turned key that does not find its edge. -/
theorem run_bothDirections : (∀ call ∈ bothDirections, call.AddsPlansOnly) ∧
    ¬((empty .standard).run bothDirections).OrderedKeys ∧
    ¬((empty .standard).run bothDirections).SingleEdges ∧
    ¬((empty .standard).run bothDirections).FoundEitherWay := by
  have plansOnly : ∀ call ∈ bothDirections, call.AddsPlansOnly := by
    intro call member
    simp only [bothDirections, List.mem_cons, List.not_mem_nil, or_false] at member
    rcases member with rfl | rfl | rfl <;> trivial
  have keys : ((empty .standard).run bothDirections).edgeKeys = [.ring 1 0, .ring 0 1] := rfl
  have indexed := (Indexed.empty .standard).run bothDirections
  have wired := wired_run_empty .standard plansOnly
  generalize (empty .standard).run bothDirections = s at keys indexed wired
  have forward : .ring 0 1 ∈ s.edgeKeys := by simp [keys]
  have backward : .ring 1 0 ∈ s.edgeKeys := by simp [keys]
  obtain ⟨e, member, named⟩ := List.mem_map.1 backward
  refine ⟨plansOnly, ?_, ?_, ?_⟩
  · intro ordered
    exact absurd (ordered e member 1 0 named) (by decide)
  · intro single
    exact (wired.singleEdges_iff indexed).1 single 0 1 forward backward
  · intro either
    exact (wired.foundEitherWay_iff indexed).1 either e member 1 0 named

end Scene

end Emblem
