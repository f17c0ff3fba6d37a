/-
Module: Emblem.Proofs.Legality
Purpose: Which additions a scene accepts, told from the keys in it alone, and what becomes of its
  keys. The nodes of a layout and the edges of a plan are followed as a whole.
Main exports: Addition.Legal, AllLegal, Scene.Indexed.exists_add_iff, Scene.Indexed.addAll_eq_ok_iff,
  Scene.addAll_collect, Scene.addAll_keys, allLegal_placements_iff, allLegal_connections_iff
-/
import Emblem.Proofs.SceneIndex

namespace Emblem

namespace Addition

/-- The keys of the nodes that an addition brings. -/
def nodeKeys : Addition → List NodeKey
  | node key .. => [key]
  | edge .. => []

/-- The keys of the edges that an addition brings. -/
def edgeKeys : Addition → List EdgeKey
  | node .. => []
  | edge key .. => [key]

/-- An addition is legal beside these keys if its own is new and, for an edge, both ends are there
and are different. -/
def Legal (nodes : List NodeKey) (edges : List EdgeKey) : Addition → Prop
  | node key .. => key ∉ nodes
  | edge key source target .. => key ∉ edges ∧ source ∈ nodes ∧ target ∈ nodes ∧ source ≠ target

end Addition

/-- Each addition of a list is legal beside these keys and those of the additions before it. -/
def AllLegal : List NodeKey → List EdgeKey → List Addition → Prop
  | _, _, [] => True
  | nodes, edges, a :: rest =>
      a.Legal nodes edges ∧ AllLegal (nodes ++ a.nodeKeys) (edges ++ a.edgeKeys) rest

namespace Scene

variable {s : Scene}

@[simp] theorem nodeKeys_empty (canvas : Canvas) : (Scene.empty canvas).nodeKeys = [] := rfl

@[simp] theorem edgeKeys_empty (canvas : Canvas) : (Scene.empty canvas).edgeKeys = [] := rfl

/-- A successful addition puts its keys after the others. -/
theorem add_keys {after : Scene} {a : Addition} {ref : ElementRef}
    (added : s.add a = .ok (ref, after)) :
    after.nodeKeys = s.nodeKeys ++ a.nodeKeys ∧ after.edgeKeys = s.edgeKeys ++ a.edgeKeys := by
  rcases add_cases added with
    ⟨key, center, radius, fill, rfl, _, _, rfl⟩ |
    ⟨key, source, target, stroke, width, start, stop, rfl, _, _, _, _, _, rfl⟩
  · simp [pushNode, nodeKeys, edgeKeys, Addition.nodeKeys, Addition.edgeKeys]
  · simp [pushEdge, nodeKeys, edgeKeys, Addition.nodeKeys, Addition.edgeKeys]

namespace Indexed

/-- An edge can end at the nodes that are there. -/
theorem exists_findEnd_iff (indexed : s.Indexed) {key : NodeKey} :
    (∃ stop, s.findEnd key = .ok stop) ↔ key ∈ s.nodeKeys := by
  rw [← indexed.nodeIndex.exists_find?_iff]
  unfold findEnd
  cases s.nodeIndex.find? key <;> simp

/-- Different keys lead to different handles. -/
theorem findEnd_ne (indexed : s.Indexed) {source target : NodeKey} {start stop : NodeId × Point}
    (first : s.findEnd source = .ok start) (last : s.findEnd target = .ok stop) :
    start.1 ≠ stop.1 ↔ source ≠ target := by
  obtain ⟨n, here, named, _⟩ := indexed.findEnd_eq_ok_iff.1 first
  obtain ⟨m, there, called, _⟩ := indexed.findEnd_eq_ok_iff.1 last
  constructor
  · rintro apart rfl
    rw [first] at last
    cases last
    exact apart rfl
  · intro different same
    rw [same, there] at here
    cases here
    exact different (named.symm.trans called)

/-- A scene in step accepts the legal additions and no others. -/
theorem exists_add_iff (indexed : s.Indexed) {a : Addition} :
    (∃ result, s.add a = .ok result) ↔ a.Legal s.nodeKeys s.edgeKeys := by
  constructor
  · rintro ⟨⟨ref, after⟩, added⟩
    rcases add_cases added with
      ⟨key, center, radius, fill, rfl, fresh, _, _⟩ |
      ⟨key, source, target, stroke, width, start, stop, rfl, fresh, first, last, apart, _, _⟩
    · exact indexed.nodeIndex.find?_eq_none_iff.1 fresh
    · exact ⟨indexed.edgeIndex.find?_eq_none_iff.1 fresh,
        indexed.exists_findEnd_iff.1 ⟨start, first⟩, indexed.exists_findEnd_iff.1 ⟨stop, last⟩,
        (indexed.findEnd_ne first last).1 apart⟩
  · intro legal
    cases a with
    | node key center radius fill =>
        have fresh := indexed.nodeIndex.find?_eq_none_iff.2 legal
        have done : s.addNode key center radius fill =
            .ok (⟨s.nodes.length⟩, s.pushNode key center radius fill) :=
          addNode_eq_ok_iff.2 ⟨fresh, rfl, rfl⟩
        exact ⟨_, map_eq_ok_iff.2 ⟨_, done, rfl⟩⟩
    | edge key source target stroke width =>
        obtain ⟨absent, begins, ends, different⟩ := legal
        have fresh := indexed.edgeIndex.find?_eq_none_iff.2 absent
        obtain ⟨start, first⟩ := indexed.exists_findEnd_iff.2 begins
        obtain ⟨stop, last⟩ := indexed.exists_findEnd_iff.2 ends
        have apart := (indexed.findEnd_ne first last).2 different
        have done : s.addEdge key source target stroke width =
            .ok (⟨s.edges.length⟩, s.pushEdge key start stop stroke width) :=
          addEdge_eq_ok_iff.2 ⟨fresh, start, stop, first, last, apart, rfl, rfl⟩
        exact ⟨_, map_eq_ok_iff.2 ⟨_, done, rfl⟩⟩

/-- A list of additions goes through if each of them is legal in its turn. -/
theorem addAll_eq_ok_iff (indexed : s.Indexed) {additions : List Addition} :
    (s.addAll additions).2 = .ok () ↔ AllLegal s.nodeKeys s.edgeKeys additions := by
  induction additions generalizing s with
  | nil => simp [Scene.addAll, AllLegal]
  | cons a rest ih =>
      unfold Scene.addAll AllLegal
      rw [← indexed.exists_add_iff]
      cases added : s.add a with
      | error e => simp
      | ok result =>
          obtain ⟨ref, after⟩ := result
          obtain ⟨nodes, edges⟩ := add_keys added
          simp only [ih (indexed.add added), nodes, edges, Except.ok.injEq, exists_eq', true_and]

end Indexed

/-- Where each successful addition puts what it brings after the others, a list of additions that goes
through puts all that they bring after the others. -/
theorem addAll_collect {β : Type} {f : Scene → List β} {g : Addition → List β}
    (step : ∀ {s after : Scene} {a : Addition} {ref : ElementRef},
      s.add a = .ok (ref, after) → f after = f s ++ g a)
    {additions : List Addition} (done : (s.addAll additions).2 = .ok ()) :
    f (s.addAll additions).1 = f s ++ additions.flatMap g := by
  induction additions generalizing s with
  | nil => simp [addAll]
  | cons a rest ih =>
      unfold addAll at done ⊢
      cases added : s.add a with
      | error e => simp [added] at done
      | ok result =>
          obtain ⟨ref, after⟩ := result
          simp only [added] at done ⊢
          rw [ih done, step added, List.flatMap_cons, List.append_assoc]

theorem addAll_keys {additions : List Addition} (done : (s.addAll additions).2 = .ok ()) :
    (s.addAll additions).1.nodeKeys = s.nodeKeys ++ additions.flatMap Addition.nodeKeys ∧
      (s.addAll additions).1.edgeKeys = s.edgeKeys ++ additions.flatMap Addition.edgeKeys :=
  ⟨addAll_collect (fun added => (add_keys added).1) done,
    addAll_collect (fun added => (add_keys added).2) done⟩

end Scene

/-! ### The nodes of a layout and the edges of a plan -/

/-- The keys of the nodes that a layout and a palette give. -/
def placedKeys (layout : RingLayout) (d : Design) : List NodeKey :=
  (List.range (min layout.ring.length d.palette.ring.length)).map .ring ++ Side.all.map .fan

theorem placements_nodeKeys (layout : RingLayout) (d : Design) :
    (placements layout d).flatMap Addition.nodeKeys = placedKeys layout d := by
  have places : ((layout.ring.zip d.palette.ring).zipIdx.map fun place => place.2) =
      List.range (min layout.ring.length d.palette.ring.length) := by
    rw [List.zipIdx_map_snd, List.length_zip, List.range_eq_range']
  simp only [placements, placedKeys, List.flatMap_append, List.flatMap_map, Addition.nodeKeys,
    ← List.map_eq_flatMap, ← places, List.map_map]
  rfl

/-- A layout gives nodes only. -/
theorem exists_eq_node_of_mem_placements {layout : RingLayout} {d : Design} {a : Addition}
    (member : a ∈ placements layout d) :
    ∃ key center radius fill, a = .node key center radius fill := by
  rcases List.mem_append.1 member with ring | fan
  · obtain ⟨⟨⟨center, fill⟩, i⟩, _, rfl⟩ := List.mem_map.1 ring
    exact ⟨_, _, _, _, rfl⟩
  · obtain ⟨side, _, rfl⟩ := List.mem_map.1 fan
    exact ⟨_, _, _, _, rfl⟩

theorem placements_edgeKeys (layout : RingLayout) (d : Design) :
    (placements layout d).flatMap Addition.edgeKeys = [] := by
  rw [List.flatMap_eq_nil_iff]
  intro a member
  obtain ⟨key, center, radius, fill, rfl⟩ := exists_eq_node_of_mem_placements member
  rfl

theorem connections_nodeKeys (d : Design) (plan : List EdgeKey) :
    (connections d plan).flatMap Addition.nodeKeys = [] := by
  simp [connections, Addition.nodeKeys]

theorem connections_edgeKeys (d : Design) (plan : List EdgeKey) :
    (connections d plan).flatMap Addition.edgeKeys = plan := by
  simp [connections, List.flatMap_map, Addition.edgeKeys]

/-- Nodes go through if their keys are new and distinct. -/
theorem allLegal_nodes_iff {nodes : List NodeKey} {edges : List EdgeKey}
    {additions : List Addition} (distinct : nodes.Nodup)
    (nodesOnly : ∀ a ∈ additions, ∃ key center radius fill, a = .node key center radius fill) :
    AllLegal nodes edges additions ↔
      (nodes ++ additions.flatMap Addition.nodeKeys).Nodup := by
  induction additions generalizing nodes edges with
  | nil => simpa [AllLegal] using distinct
  | cons a rest ih =>
      obtain ⟨key, center, radius, fill, rfl⟩ := nodesOnly a List.mem_cons_self
      have others := fun b member => nodesOnly b (List.mem_cons_of_mem _ member)
      have regroup : nodes ++ (key :: rest.flatMap Addition.nodeKeys) =
          nodes ++ [key] ++ rest.flatMap Addition.nodeKeys := by simp
      simp only [AllLegal, Addition.Legal, Addition.nodeKeys, List.flatMap_cons,
        List.singleton_append, regroup]
      constructor
      · rintro ⟨fresh, legal⟩
        have longer : (nodes ++ [key]).Nodup := by
          rw [List.nodup_append_comm]
          exact List.nodup_cons.2 ⟨fresh, distinct⟩
        exact (ih longer others).1 legal
      · intro all
        have longer : (nodes ++ [key]).Nodup := (List.nodup_append.1 all).1
        refine ⟨?_, (ih longer others).2 all⟩
        rw [List.nodup_append_comm] at longer
        exact (List.nodup_cons.1 longer).1

/-- The nodes of a layout go through if their keys are new. -/
theorem allLegal_placements_iff {nodes : List NodeKey} {edges : List EdgeKey}
    (distinct : nodes.Nodup) (layout : RingLayout) (d : Design) :
    AllLegal nodes edges (placements layout d) ↔ (nodes ++ placedKeys layout d).Nodup := by
  rw [allLegal_nodes_iff distinct fun _ member => exists_eq_node_of_mem_placements member,
    placements_nodeKeys]

/-- The edges of a plan go through if their keys are new and distinct and every one has two
different ends that are there. -/
theorem allLegal_connections_iff {nodes : List NodeKey} {edges plan : List EdgeKey}
    (distinct : edges.Nodup) (d : Design) :
    AllLegal nodes edges (connections d plan) ↔
      (edges ++ plan).Nodup ∧
        ∀ key ∈ plan, key.ends.1 ∈ nodes ∧ key.ends.2 ∈ nodes ∧ key.ends.1 ≠ key.ends.2 := by
  induction plan generalizing edges with
  | nil => simpa [connections, AllLegal] using distinct
  | cons key rest ih =>
      have regroup : edges ++ (key :: rest) = edges ++ [key] ++ rest := by simp
      simp only [connections, List.map_cons, AllLegal, Addition.Legal, Addition.nodeKeys,
        Addition.edgeKeys, List.append_nil, regroup, List.forall_mem_cons]
      constructor
      · rintro ⟨⟨fresh, ends⟩, legal⟩
        have longer : (edges ++ [key]).Nodup := by
          rw [List.nodup_append_comm]
          exact List.nodup_cons.2 ⟨fresh, distinct⟩
        obtain ⟨all, others⟩ := (ih longer).1 legal
        exact ⟨all, ends, others⟩
      · rintro ⟨all, ends, others⟩
        have longer : (edges ++ [key]).Nodup := (List.nodup_append.1 all).1
        refine ⟨⟨?_, ends⟩, (ih longer).2 ⟨all, others⟩⟩
        rw [List.nodup_append_comm] at longer
        exact (List.nodup_cons.1 longer).1

end Emblem
