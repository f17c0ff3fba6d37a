/-
Module: Emblem.Proofs.SceneIndex
Purpose: Scenes under construction keep their lists, their indexes and their handles in step,
  whatever is asked of them and in whatever order, also when requests are refused half way.
Main exports: Index.Numbers, Scene.Indexed, Scene.Indexed.add, Scene.Call, Scene.run,
  Scene.Consistent, Scene.run_consistent
-/
import Mathlib.Data.List.Nodup
import Emblem.Proofs.Outcome
import Emblem.Scene.OfDesign

namespace Emblem

/-- What a list holds after one more element is put at its end. -/
theorem getElem?_concat_eq_some_iff {α : Type} {l : List α} {a b : α} {k : Nat} :
    (l ++ [a])[k]? = some b ↔ l[k]? = some b ∨ (k = l.length ∧ b = a) := by
  rcases Nat.lt_trichotomy k l.length with before | here | after
  · rw [List.getElem?_append_left before]
    exact ⟨Or.inl, fun place => place.resolve_right fun late => by omega⟩
  · subst here
    simp [eq_comm]
  · have outside : (l ++ [a])[k]? = none := by
      rw [List.getElem?_eq_none_iff, List.length_append, List.length_singleton]
      omega
    have beyond : l[k]? = none := by
      rw [List.getElem?_eq_none_iff]
      omega
    rw [outside, beyond]
    constructor
    · intro impossible
      cases impossible
    · rintro (impossible | ⟨late, _⟩)
      · cases impossible
      · omega

/-- What stands at a place of a list stands there still when more is put at the end. -/
theorem getElem?_of_prefix {α : Type} {l longer : List α} {a : α} {k : Nat}
    (grown : l <+: longer) (place : l[k]? = some a) : longer[k]? = some a := by
  obtain ⟨more, rfl⟩ := grown
  rw [List.getElem?_append_left (List.getElem?_eq_some_iff.1 place).1, place]

namespace Index

variable {Key Handle : Type} [DecidableEq Key]

/-- An index numbers a list of keys: it finds a key exactly where the list has it. -/
def Numbers (x : Index Key Handle) (handle : Nat → Handle) (keys : List Key) : Prop :=
  ∀ key id, x.find? key = some id ↔ ∃ k, keys[k]? = some key ∧ handle k = id

namespace Numbers

variable {x : Index Key Handle} {handle : Nat → Handle} {keys : List Key}

theorem empty (handle : Nat → Handle) : (Index.empty : Index Key Handle).Numbers handle [] := by
  intro key id
  simp

theorem find?_eq_none_iff (numbers : x.Numbers handle keys) {key : Key} :
    x.find? key = none ↔ key ∉ keys := by
  constructor
  · intro unknown member
    obtain ⟨k, place⟩ := List.getElem?_of_mem member
    have found := (numbers key (handle k)).2 ⟨k, place, rfl⟩
    rw [unknown] at found
    cases found
  · intro absent
    cases found : x.find? key with
    | none => rfl
    | some id =>
        obtain ⟨k, place, _⟩ := (numbers key id).1 found
        exact absurd (List.mem_of_getElem? place) absent

theorem exists_find?_iff (numbers : x.Numbers handle keys) {key : Key} :
    (∃ id, x.find? key = some id) ↔ key ∈ keys := by
  constructor
  · rintro ⟨id, found⟩
    obtain ⟨k, place, _⟩ := (numbers key id).1 found
    exact List.mem_of_getElem? place
  · intro member
    obtain ⟨k, place⟩ := List.getElem?_of_mem member
    exact ⟨handle k, (numbers key (handle k)).2 ⟨k, place, rfl⟩⟩

/-- A new key is numbered by the count of those before it. -/
theorem insert (numbers : x.Numbers handle keys) {key : Key} (fresh : x.find? key = none) :
    (x.insert key (handle keys.length)).Numbers handle (keys ++ [key]) := by
  have absent : key ∉ keys := numbers.find?_eq_none_iff.1 fresh
  intro sought id
  rw [find?_insert]
  by_cases same : sought = key
  · subst same
    rw [if_pos rfl]
    constructor
    · intro here
      exact ⟨keys.length, by simp, Option.some.inj here⟩
    · rintro ⟨k, place, rfl⟩
      rcases getElem?_concat_eq_some_iff.1 place with earlier | ⟨here, _⟩
      · exact absurd (List.mem_of_getElem? earlier) absent
      · rw [here]
  · rw [if_neg same, numbers sought id]
    constructor
    · rintro ⟨k, place, handled⟩
      exact ⟨k, getElem?_concat_eq_some_iff.2 (.inl place), handled⟩
    · rintro ⟨k, place, handled⟩
      rcases getElem?_concat_eq_some_iff.1 place with earlier | ⟨_, late⟩
      · exact ⟨k, earlier, handled⟩
      · exact absurd late same

/-- Numbered keys are distinct, since one key has one handle. -/
theorem nodup (numbers : x.Numbers handle keys) (injective : Function.Injective handle) :
    keys.Nodup := by
  rw [List.nodup_iff_getElem?_ne_getElem?]
  intro i j before bound same
  have here : keys[j]? = some keys[j] := List.getElem?_eq_getElem bound
  have first := (numbers keys[j] (handle i)).2 ⟨i, same.trans here, rfl⟩
  have second := (numbers keys[j] (handle j)).2 ⟨j, here, rfl⟩
  have equal : handle i = handle j := Option.some.inj (first.symm.trans second)
  exact absurd (injective equal) (Nat.ne_of_lt before)

end Numbers

end Index

theorem NodeId.mk_injective : Function.Injective NodeId.mk := by
  intro a b equal
  exact NodeId.mk.inj equal

theorem EdgeId.mk_injective : Function.Injective EdgeId.mk := by
  intro a b equal
  exact EdgeId.mk.inj equal

namespace Scene

/-- The keys of the nodes in the order of their handles. -/
def nodeKeys (s : Scene) : List NodeKey :=
  s.nodes.map (·.key)

/-- The keys of the edges in the order of their handles. -/
def edgeKeys (s : Scene) : List EdgeKey :=
  s.edges.map (·.key)

/-- An edge runs between two different nodes of a scene, from centre to centre. -/
def Joins (s : Scene) (e : Edge) : Prop :=
  e.source ≠ e.target ∧
    ∃ a b, s.nodes[e.source.index]? = some a ∧ s.nodes[e.target.index]? = some b ∧
      e.sourcePoint = a.center ∧ e.targetPoint = b.center

/-- The lists, the indexes and the handles of a scene are in step. -/
structure Indexed (s : Scene) : Prop where
  node_id : ∀ (k : Nat) (n : Node), s.nodes[k]? = some n → n.id = ⟨k⟩
  edge_id : ∀ (k : Nat) (e : Edge), s.edges[k]? = some e → e.id = ⟨k⟩
  nodeIndex : s.nodeIndex.Numbers NodeId.mk s.nodeKeys
  edgeIndex : s.edgeIndex.Numbers EdgeId.mk s.edgeKeys
  joins : ∀ e ∈ s.edges, s.Joins e

namespace Indexed

variable {s : Scene}

theorem empty (canvas : Canvas) : (Scene.empty canvas).Indexed where
  node_id := by simp [Scene.empty]
  edge_id := by simp [Scene.empty]
  nodeIndex := Index.Numbers.empty NodeId.mk
  edgeIndex := Index.Numbers.empty EdgeId.mk
  joins := by simp [Scene.empty]

/-- A key leads through the index to the node that has it. -/
theorem find?_node (indexed : s.Indexed) {key : NodeKey} {id : NodeId} :
    s.nodeIndex.find? key = some id ↔ ∃ n, s.nodes[id.index]? = some n ∧ n.key = key := by
  rw [indexed.nodeIndex key id]
  simp only [nodeKeys, List.getElem?_map, Option.map_eq_some_iff]
  constructor
  · rintro ⟨k, here, rfl⟩
    exact here
  · intro here
    exact ⟨id.index, here, rfl⟩

/-- A key leads through the index to the edge that has it. -/
theorem find?_edge (indexed : s.Indexed) {key : EdgeKey} {id : EdgeId} :
    s.edgeIndex.find? key = some id ↔ ∃ e, s.edges[id.index]? = some e ∧ e.key = key := by
  rw [indexed.edgeIndex key id]
  simp only [edgeKeys, List.getElem?_map, Option.map_eq_some_iff]
  constructor
  · rintro ⟨k, here, rfl⟩
    exact here
  · intro here
    exact ⟨id.index, here, rfl⟩

/-- The handle that the ends of edges take from the index is always that of a node. -/
theorem nodeIndex_lt (indexed : s.Indexed) {key : NodeKey} {id : NodeId}
    (found : s.nodeIndex.find? key = some id) : id.index < s.nodes.length := by
  obtain ⟨n, here, _⟩ := indexed.find?_node.1 found
  exact (List.getElem?_eq_some_iff.1 here).1

/-- The end of an edge is the node with its key. -/
theorem findEnd_eq_ok_iff (indexed : s.Indexed) {key : NodeKey} {id : NodeId} {p : Point} :
    s.findEnd key = .ok (id, p) ↔
      ∃ n, s.nodes[id.index]? = some n ∧ n.key = key ∧ n.center = p := by
  unfold findEnd
  cases found : s.nodeIndex.find? key with
  | none =>
      constructor
      · intro refused
        cases refused
      · rintro ⟨n, here, named, _⟩
        rw [indexed.find?_node.2 ⟨n, here, named⟩] at found
        cases found
  | some handle =>
      obtain ⟨m, place, named⟩ := indexed.find?_node.1 found
      have center : s.nodes[handle.index]!.center = m.center := by
        rw [List.getElem!_eq_getElem?_getD, place]
        rfl
      constructor
      · intro ok
        cases ok
        exact ⟨m, place, named, center.symm⟩
      · rintro ⟨n, here, same, rfl⟩
        have handled : handle = id := by
          have again := indexed.find?_node.2 ⟨n, here, same⟩
          exact Option.some.inj (found.symm.trans again)
        subst handled
        rw [here] at place
        cases place
        simp only [center]

end Indexed

theorem addNode_eq_ok_iff {s after : Scene} {key : NodeKey} {center : Point} {radius : Float}
    {fill : Color} {id : NodeId} :
    s.addNode key center radius fill = .ok (id, after) ↔
      s.nodeIndex.find? key = none ∧ id = ⟨s.nodes.length⟩ ∧
        after = s.pushNode key center radius fill := by
  unfold addNode
  cases s.nodeIndex.find? key with
  | none => simp [eq_comm]
  | some taken => simp

theorem addEdge_eq_ok_iff {s after : Scene} {key : EdgeKey} {source target : NodeKey}
    {stroke : Color} {width : Float} {id : EdgeId} :
    s.addEdge key source target stroke width = .ok (id, after) ↔
      s.edgeIndex.find? key = none ∧
        ∃ start stop, s.findEnd source = .ok start ∧ s.findEnd target = .ok stop ∧
          start.1 ≠ stop.1 ∧ id = ⟨s.edges.length⟩ ∧
          after = s.pushEdge key start stop stroke width := by
  unfold addEdge
  cases s.edgeIndex.find? key with
  | some taken => simp
  | none =>
      simp only [bind_eq_ok_iff, true_and]
      constructor
      · rintro ⟨start, first, stop, last, done⟩
        by_cases loop : start.1 = stop.1
        · simp [loop] at done
        · simp only [loop, if_false, Except.ok.injEq, Prod.mk.injEq] at done
          exact ⟨start, stop, first, last, loop, done.1.symm, done.2.symm⟩
      · rintro ⟨start, stop, first, last, apart, rfl, rfl⟩
        exact ⟨start, first, stop, last, by simp [apart]⟩

/-- Everything that a successful addition can have done, with what it has checked. -/
theorem add_cases {s after : Scene} {a : Addition} {ref : ElementRef}
    (added : s.add a = .ok (ref, after)) :
    (∃ key center radius fill, a = .node key center radius fill ∧
      s.nodeIndex.find? key = none ∧ ref = .node ⟨s.nodes.length⟩ ∧
      after = s.pushNode key center radius fill) ∨
    (∃ key source target stroke width start stop, a = .edge key source target stroke width ∧
      s.edgeIndex.find? key = none ∧ s.findEnd source = .ok start ∧
      s.findEnd target = .ok stop ∧ start.1 ≠ stop.1 ∧ ref = .edge ⟨s.edges.length⟩ ∧
      after = s.pushEdge key start stop stroke width) := by
  cases a with
  | node key center radius fill =>
      obtain ⟨⟨id, grown⟩, done, same⟩ := map_eq_ok_iff.1 added
      cases same
      obtain ⟨fresh, rfl, rfl⟩ := addNode_eq_ok_iff.1 done
      exact .inl ⟨key, center, radius, fill, rfl, fresh, rfl, rfl⟩
  | edge key source target stroke width =>
      obtain ⟨⟨id, grown⟩, done, same⟩ := map_eq_ok_iff.1 added
      cases same
      obtain ⟨fresh, start, stop, first, last, apart, rfl, rfl⟩ := addEdge_eq_ok_iff.1 done
      exact .inr ⟨key, source, target, stroke, width, start, stop, rfl, fresh, first, last,
        apart, rfl, rfl⟩

/-- Nodes put after the others leave an edge where it is. -/
theorem Joins.append {s after : Scene} {e : Edge} {more : List Node}
    (joins : s.Joins e) (grown : after.nodes = s.nodes ++ more) : after.Joins e := by
  obtain ⟨apart, a, b, source, target, start, stop⟩ := joins
  have longer : s.nodes <+: after.nodes := ⟨more, grown.symm⟩
  exact ⟨apart, a, b, getElem?_of_prefix longer source, getElem?_of_prefix longer target, start, stop⟩

namespace Indexed

variable {s : Scene}

theorem pushNode (indexed : s.Indexed) {key : NodeKey} (fresh : s.nodeIndex.find? key = none)
    (center : Point) (radius : Float) (fill : Color) :
    (s.pushNode key center radius fill).Indexed where
  node_id := by
    intro k n place
    rcases getElem?_concat_eq_some_iff.1 place with earlier | ⟨here, new⟩
    · exact indexed.node_id k n earlier
    · rw [here, new]
  edge_id := indexed.edge_id
  nodeIndex := by
    have numbers := indexed.nodeIndex.insert fresh
    simpa [Scene.pushNode, nodeKeys] using numbers
  edgeIndex := indexed.edgeIndex
  joins := fun e member => (indexed.joins e member).append rfl

theorem pushEdge (indexed : s.Indexed) {key : EdgeKey} {source target : NodeKey}
    {start stop : NodeId × Point} (fresh : s.edgeIndex.find? key = none)
    (first : s.findEnd source = .ok start) (last : s.findEnd target = .ok stop)
    (apart : start.1 ≠ stop.1) (stroke : Color) (width : Float) :
    (s.pushEdge key start stop stroke width).Indexed where
  node_id := indexed.node_id
  edge_id := by
    intro k e place
    rcases getElem?_concat_eq_some_iff.1 place with earlier | ⟨here, new⟩
    · exact indexed.edge_id k e earlier
    · rw [here, new]
  nodeIndex := indexed.nodeIndex
  edgeIndex := by
    have numbers := indexed.edgeIndex.insert fresh
    simpa [Scene.pushEdge, edgeKeys] using numbers
  joins := by
    intro e member
    rcases List.mem_append.1 member with earlier | new
    · exact (indexed.joins e earlier).append (List.append_nil _).symm
    · rw [List.mem_singleton.1 new]
      obtain ⟨a, begins, _, here⟩ := indexed.findEnd_eq_ok_iff.1 first
      obtain ⟨b, ends, _, there⟩ := indexed.findEnd_eq_ok_iff.1 last
      exact ⟨apart, a, b, begins, ends, here.symm, there.symm⟩

/-- A successful addition keeps a scene in step. -/
theorem add (indexed : s.Indexed) {a : Addition} {ref : ElementRef} {after : Scene}
    (added : s.add a = .ok (ref, after)) : after.Indexed := by
  rcases add_cases added with
    ⟨key, center, radius, fill, _, fresh, _, rfl⟩ |
    ⟨key, source, target, stroke, width, start, stop, _, fresh, first, last, apart, _, rfl⟩
  · exact indexed.pushNode fresh center radius fill
  · exact indexed.pushEdge fresh first last apart stroke width

/-- So does a list of additions, also one that stops at a refusal. -/
theorem addAll (indexed : s.Indexed) (additions : List Addition) :
    (s.addAll additions).1.Indexed := by
  induction additions generalizing s with
  | nil => exact indexed
  | cons a rest ih =>
      unfold Scene.addAll
      cases added : s.add a with
      | error e => exact indexed
      | ok result =>
          obtain ⟨ref, after⟩ := result
          exact ih (indexed.add added)

end Indexed

/-- What can be asked of a scene under construction: one node or edge, the nodes of a layout, or
the edges of a plan. -/
inductive Call where
  | add (a : Addition)
  | place (layout : RingLayout) (d : Design)
  | connect (plan : List EdgeKey) (d : Design)

/-- What a call leaves behind. A refused addition leaves the scene as it was; the nodes of a layout
and the edges of a plan are added up to the first that is refused. -/
def after (s : Scene) : Call → Scene
  | .add a =>
      match s.add a with
      | .ok (_, grown) => grown
      | .error _ => s
  | .place layout d => (s.addAll (placements layout d)).1
  | .connect plan d => (s.addAll (connections d plan)).1

/-- What a list of calls leaves behind. -/
def run (s : Scene) (calls : List Call) : Scene :=
  calls.foldl after s

/-- One call keeps a scene in step, whether it is refused or not. -/
theorem Indexed.after {s : Scene} (indexed : s.Indexed) (call : Call) :
    (s.after call).Indexed := by
  cases call with
  | add a =>
      simp only [Scene.after]
      cases added : s.add a with
      | error e => exact indexed
      | ok result =>
          obtain ⟨ref, grown⟩ := result
          exact indexed.add added
  | place layout d => exact indexed.addAll (placements layout d)
  | connect plan d => exact indexed.addAll (connections d plan)

/-- A whole run keeps a scene in step. -/
theorem Indexed.run {s : Scene} (indexed : s.Indexed) (calls : List Call) :
    (s.run calls).Indexed := by
  induction calls generalizing s with
  | nil => exact indexed
  | cons call rest ih => exact ih (indexed.after call)

/-! ### What a scene in step promises to those who look things up -/

namespace Indexed

variable {s : Scene}

theorem node_eq_ok_iff {id : NodeId} {n : Node} :
    s.node id = .ok n ↔ s.nodes[id.index]? = some n := by
  unfold Scene.node
  cases s.nodes[id.index]? <;> simp

theorem edge_eq_ok_iff {id : EdgeId} {e : Edge} :
    s.edge id = .ok e ↔ s.edges[id.index]? = some e := by
  unfold Scene.edge
  cases s.edges[id.index]? <;> simp

theorem node_self (indexed : s.Indexed) {n : Node} (member : n ∈ s.nodes) :
    s.node n.id = .ok n := by
  obtain ⟨k, place⟩ := List.getElem?_of_mem member
  rw [node_eq_ok_iff, indexed.node_id k n place]
  exact place

theorem edge_self (indexed : s.Indexed) {e : Edge} (member : e ∈ s.edges) :
    s.edge e.id = .ok e := by
  obtain ⟨k, place⟩ := List.getElem?_of_mem member
  rw [edge_eq_ok_iff, indexed.edge_id k e place]
  exact place

theorem nodeByKey_eq_ok_iff (indexed : s.Indexed) {key : NodeKey} {n : Node} :
    s.nodeByKey key = .ok n ↔ n ∈ s.nodes ∧ n.key = key := by
  unfold nodeByKey
  constructor
  · intro ok
    cases found : s.nodeIndex.find? key with
    | none => simp [found] at ok
    | some id =>
        simp only [found] at ok
        obtain ⟨m, place, named⟩ := indexed.find?_node.1 found
        have here := node_eq_ok_iff.1 ok
        rw [place] at here
        cases here
        exact ⟨List.mem_of_getElem? place, named⟩
  · rintro ⟨member, rfl⟩
    have place := node_eq_ok_iff.1 (indexed.node_self member)
    rw [indexed.find?_node.2 ⟨n, place, rfl⟩]
    exact indexed.node_self member

theorem edgeByKey_eq_ok_iff (indexed : s.Indexed) {key : EdgeKey} {e : Edge} :
    s.edgeByKey key = .ok e ↔ e ∈ s.edges ∧ e.key = key := by
  unfold edgeByKey
  constructor
  · intro ok
    cases found : s.edgeIndex.find? key with
    | none => simp [found] at ok
    | some id =>
        simp only [found] at ok
        obtain ⟨m, place, named⟩ := indexed.find?_edge.1 found
        have here := edge_eq_ok_iff.1 ok
        rw [place] at here
        cases here
        exact ⟨List.mem_of_getElem? place, named⟩
  · rintro ⟨member, rfl⟩
    have place := edge_eq_ok_iff.1 (indexed.edge_self member)
    rw [indexed.find?_edge.2 ⟨e, place, rfl⟩]
    exact indexed.edge_self member

theorem nodeByKey_of_notMem (indexed : s.Indexed) {key : NodeKey} (absent : key ∉ s.nodeKeys) :
    s.nodeByKey key = .error (.noNode key) := by
  unfold nodeByKey
  rw [indexed.nodeIndex.find?_eq_none_iff.2 absent]

theorem edgeByKey_of_notMem (indexed : s.Indexed) {key : EdgeKey} (absent : key ∉ s.edgeKeys) :
    s.edgeByKey key = .error (.noEdge key) := by
  unfold edgeByKey
  rw [indexed.edgeIndex.find?_eq_none_iff.2 absent]

end Indexed

/-- What a scene promises to those who use it: handles are places in the lists, keys are unique,
a lookup by handle or by key finds exactly what the lists hold, and every edge joins two different
nodes from centre to centre. The last promise is the one that the building of edges relies on when
it takes a handle from the index without a check. -/
structure Consistent (s : Scene) : Prop where
  node_id : ∀ (k : Nat) (n : Node), s.nodes[k]? = some n → n.id = ⟨k⟩
  edge_id : ∀ (k : Nat) (e : Edge), s.edges[k]? = some e → e.id = ⟨k⟩
  nodeKeys_nodup : (s.nodes.map (·.key)).Nodup
  edgeKeys_nodup : (s.edges.map (·.key)).Nodup
  nodeByKey_eq_ok_iff : ∀ key n, s.nodeByKey key = .ok n ↔ n ∈ s.nodes ∧ n.key = key
  nodeByKey_eq_error : ∀ key, (∀ n ∈ s.nodes, n.key ≠ key) →
    s.nodeByKey key = .error (.noNode key)
  edgeByKey_eq_ok_iff : ∀ key e, s.edgeByKey key = .ok e ↔ e ∈ s.edges ∧ e.key = key
  edgeByKey_eq_error : ∀ key, (∀ e ∈ s.edges, e.key ≠ key) →
    s.edgeByKey key = .error (.noEdge key)
  node_self : ∀ n ∈ s.nodes, s.node n.id = .ok n
  edge_self : ∀ e ∈ s.edges, s.edge e.id = .ok e
  ends : ∀ e ∈ s.edges, ∃ a b, s.node e.source = .ok a ∧ s.node e.target = .ok b ∧ a ≠ b ∧
    e.sourcePoint = a.center ∧ e.targetPoint = b.center
  nodeIndex_lt : ∀ key id, s.nodeIndex.find? key = some id → id.index < s.nodes.length

theorem Indexed.consistent {s : Scene} (indexed : s.Indexed) : s.Consistent where
  node_id := indexed.node_id
  edge_id := indexed.edge_id
  nodeKeys_nodup := indexed.nodeIndex.nodup NodeId.mk_injective
  edgeKeys_nodup := indexed.edgeIndex.nodup EdgeId.mk_injective
  nodeByKey_eq_ok_iff := fun _ _ => indexed.nodeByKey_eq_ok_iff
  nodeByKey_eq_error := by
    intro key absent
    apply indexed.nodeByKey_of_notMem
    intro member
    obtain ⟨n, here, named⟩ := List.mem_map.1 member
    exact absent n here named
  edgeByKey_eq_ok_iff := fun _ _ => indexed.edgeByKey_eq_ok_iff
  edgeByKey_eq_error := by
    intro key absent
    apply indexed.edgeByKey_of_notMem
    intro member
    obtain ⟨e, here, named⟩ := List.mem_map.1 member
    exact absent e here named
  node_self := fun _ member => indexed.node_self member
  edge_self := fun _ member => indexed.edge_self member
  ends := by
    intro e member
    obtain ⟨apart, a, b, source, target, start, stop⟩ := indexed.joins e member
    refine ⟨a, b, node_eq_ok_iff.2 source, node_eq_ok_iff.2 target, ?_, start, stop⟩
    -- One node in both places would give both ends one handle.
    intro same
    subst same
    have first := indexed.node_id _ a source
    have second := indexed.node_id _ a target
    exact apart (first.symm.trans second)
  nodeIndex_lt := fun _ _ found => indexed.nodeIndex_lt found

/-- Every run of calls, whatever is refused on the way, leaves a consistent scene. Handles are counts in it,
so this is about scenes with fewer than 2 ^ 32 nodes and as few edges. -/
theorem run_consistent (canvas : Canvas) (calls : List Call) :
    ((Scene.empty canvas).run calls).Consistent :=
  ((Indexed.empty canvas).run calls).consistent

end Scene

end Emblem
