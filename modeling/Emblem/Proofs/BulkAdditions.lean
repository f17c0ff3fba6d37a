/-
Module: Emblem.Proofs.BulkAdditions
Purpose: Additions in bulk, the nodes of a layout and the edges of a plan. They go through if each of
  them is legal in its turn. Otherwise they stop at the first that is not, for its reason, and the scene
  has got what those before it bring, in order, and nothing else.
Main exports: Scene.edgeAddition, Scene.Extended, Scene.Indexed.addAll_stops, EdgeKey.Joinable,
  Scene.Drawable, Scene.PlacesPrefix, Scene.ConnectsPrefix, Scene.run_bulk
-/
import Emblem.Proofs.SceneContents
import Emblem.Proofs.SceneGrowth

namespace Emblem

/-- The addition itself, if it brings an edge. -/
def Addition.edges : Addition → List Addition
  | node .. => []
  | edge key source target stroke width => [edge key source target stroke width]

namespace Scene

/-- The addition that brings an edge like this one between the same nodes. -/
def edgeAddition (s : Scene) (e : Edge) : Except Error Addition := do
  let a ← s.node e.source
  let b ← s.node e.target
  return .edge e.key a.key b.key e.stroke e.width

/-- A scene is another one with the nodes and edges of these additions after the others, in order, and
nothing else. Handles, indexes and the points of edges are right throughout. -/
structure Extended (s : Scene) (additions : List Addition) (grown : Scene) : Prop where
  canvas : grown.canvas = s.canvas
  nodes : ∃ new, grown.nodes = s.nodes ++ new ∧
    new.map Node.addition = additions.flatMap Addition.nodes
  edges : ∃ new, grown.edges = s.edges ++ new ∧
    new.mapM grown.edgeAddition = .ok (additions.flatMap Addition.edges)
  indexed : grown.Indexed

section Extension

variable {s middle grown : Scene}

theorem edgeAddition_eq_ok_iff {e : Edge} {a : Addition} :
    s.edgeAddition e = .ok a ↔ ∃ first last, s.node e.source = .ok first ∧
      s.node e.target = .ok last ∧ a = .edge e.key first.key last.key e.stroke e.width := by
  rw [edgeAddition, bind_eq_ok_iff]
  constructor
  · rintro ⟨first, start, done⟩
    obtain ⟨last, stop, same⟩ := bind_eq_ok_iff.1 done
    cases same
    exact ⟨first, last, start, stop, rfl⟩
  · rintro ⟨first, last, start, stop, rfl⟩
    exact ⟨first, start, bind_eq_ok_iff.2 ⟨last, stop, rfl⟩⟩

/-- An edge stays between its nodes while a scene grows. -/
theorem Retains.edgeAddition (retains : s.Retains grown) {e : Edge} {a : Addition}
    (brought : s.edgeAddition e = .ok a) : grown.edgeAddition e = .ok a := by
  obtain ⟨first, last, start, stop, rfl⟩ := edgeAddition_eq_ok_iff.1 brought
  apply edgeAddition_eq_ok_iff.2
  exact ⟨first, last, retains.node _ _ start, retains.node _ _ stop, rfl⟩

namespace Extended

theorem refl (indexed : s.Indexed) : s.Extended [] s where
  canvas := rfl
  nodes := ⟨[], (List.append_nil _).symm, rfl⟩
  edges := ⟨[], (List.append_nil _).symm, rfl⟩
  indexed := indexed

theorem grows {additions : List Addition} (extended : s.Extended additions grown) :
    s.Grows grown where
  canvas := extended.canvas
  nodes := by
    obtain ⟨new, longer, _⟩ := extended.nodes
    exact ⟨new, longer.symm⟩
  edges := by
    obtain ⟨new, longer, _⟩ := extended.edges
    exact ⟨new, longer.symm⟩

theorem trans {earlier later : List Addition} (first : s.Extended earlier middle)
    (last : middle.Extended later grown) : s.Extended (earlier ++ later) grown where
  canvas := last.canvas.trans first.canvas
  nodes := by
    obtain ⟨new, longer, brought⟩ := first.nodes
    obtain ⟨new', longer', brought'⟩ := last.nodes
    refine ⟨new ++ new', ?_, ?_⟩
    · rw [longer', longer, List.append_assoc]
    · rw [List.map_append, brought, brought', List.flatMap_append]
  edges := by
    obtain ⟨new, longer, brought⟩ := first.edges
    obtain ⟨new', longer', brought'⟩ := last.edges
    refine ⟨new ++ new', ?_, ?_⟩
    · rw [longer', longer, List.append_assoc]
    · -- The later additions do not move the ends of the edges that the earlier ones have brought.
      have retains := last.grows.retains first.indexed last.indexed
      rw [mapM_eq_ok_iff] at brought brought' ⊢
      have kept := brought.imp fun _ _ => retains.edgeAddition
      rw [List.flatMap_append]
      exact List.rel_append kept brought'
  indexed := last.indexed

/-- A successful addition extends a scene by what it brings. -/
theorem add (indexed : s.Indexed) {a : Addition} {ref : ElementRef}
    (added : s.add a = .ok (ref, grown)) : s.Extended [a] grown := by
  have complete := indexed.add added
  have growth := Grows.add added
  have retains := growth.retains indexed complete
  cases indexed.appends added with
  | node nodes edges =>
      exact ⟨growth.canvas, ⟨_, nodes, rfl⟩, ⟨[], by rw [edges, List.append_nil], rfl⟩, complete⟩
  | @edge key source target stroke width a b first last nodes edges =>
      obtain ⟨start, rfl⟩ := indexed.nodeByKey_eq_ok_iff.1 first
      obtain ⟨stop, rfl⟩ := indexed.nodeByKey_eq_ok_iff.1 last
      refine ⟨growth.canvas, ⟨[], by rw [nodes, List.append_nil], rfl⟩, ⟨_, edges, ?_⟩, complete⟩
      apply mapM_eq_ok_iff.2
      refine .cons ?_ .nil
      apply edgeAddition_eq_ok_iff.2
      exact ⟨a, b, retains.node _ _ (indexed.node_self start),
        retains.node _ _ (indexed.node_self stop), rfl⟩

end Extended

/-- Additions that go through extend a scene by what all of them bring. -/
theorem Indexed.addAll_extended (indexed : s.Indexed) {additions : List Addition}
    (done : s.addAll additions = (grown, .ok ())) : s.Extended additions grown := by
  induction additions generalizing s with
  | nil =>
      cases done
      exact .refl indexed
  | cons a rest ih =>
      unfold Scene.addAll at done
      cases added : s.add a with
      | error e =>
          rw [added] at done
          cases done
      | ok result =>
          obtain ⟨ref, longer⟩ := result
          rw [added] at done
          exact (Extended.add indexed added).trans (ih (indexed.add added) done)

/-- Additions that do not go through stop at the first that is not legal in its turn, and extend a
scene by what those before it bring. -/
theorem Indexed.addAll_stops (indexed : s.Indexed) {additions : List Addition} {e : Error}
    (stopped : s.addAll additions = (grown, .error e)) :
    ∃ before a rest, additions = before ++ a :: rest ∧ AllLegal s.nodeKeys s.edgeKeys before ∧
      a.Refused (s.nodeKeys ++ before.flatMap Addition.nodeKeys)
        (s.edgeKeys ++ before.flatMap Addition.edgeKeys) e ∧ s.Extended before grown := by
  induction additions generalizing s with
  | nil => cases stopped
  | cons a rest ih =>
      unfold Scene.addAll at stopped
      cases added : s.add a with
      | error e' =>
          rw [added] at stopped
          cases stopped
          have refused := indexed.add_eq_error_iff.1 added
          refine ⟨[], a, rest, rfl, trivial, ?_, .refl indexed⟩
          simpa using refused
      | ok result =>
          obtain ⟨ref, longer⟩ := result
          rw [added] at stopped
          obtain ⟨before, b, others, split, legal, refused, extended⟩ :=
            ih (indexed.add added) stopped
          -- The rest is judged beside the keys that the first addition has brought.
          obtain ⟨nodes, edges⟩ := add_keys added
          rw [nodes, edges] at legal refused
          refine ⟨a :: before, b, others, by rw [split, List.cons_append], ?_, ?_,
            (Extended.add indexed added).trans extended⟩
          · exact ⟨indexed.exists_add_iff.1 ⟨_, added⟩, legal⟩
          · simpa only [List.flatMap_cons, List.append_assoc] using refused

end Extension

/-! ### The nodes of a layout -/

theorem nodup_placedKeys (layout : RingLayout) (d : Design) : (placedKeys layout d).Nodup := by
  have rings : Function.Injective NodeKey.ring := fun _ _ same => NodeKey.ring.inj same
  apply List.Nodup.append (List.nodup_range.map rings) (by decide)
  intro key ring fan
  obtain ⟨i, _, rfl⟩ := List.mem_map.1 ring
  obtain ⟨side, _, impossible⟩ := List.mem_map.1 fan
  cases impossible

/-- The nodes of a layout go through just if their keys are all new. -/
theorem Indexed.place_eq_ok_iff {s : Scene} (indexed : s.Indexed) (layout : RingLayout)
    (d : Design) :
    (s.addAll (placements layout d)).2 = .ok () ↔ ∀ key ∈ placedKeys layout d, key ∉ s.nodeKeys := by
  have distinct := indexed.nodeIndex.nodup NodeId.mk_injective
  rw [indexed.addAll_eq_ok_iff, allLegal_placements_iff distinct]
  constructor
  · intro all key placed there
    exact (List.disjoint_of_nodup_append all) there placed
  · intro fresh
    apply List.Nodup.append distinct (nodup_placedKeys layout d)
    intro key there placed
    exact fresh key placed there

/-- What becomes of a scene when the nodes of a layout are asked for. -/
structure PlacesPrefix (s : Scene) (layout : RingLayout) (d : Design) : Prop where
  /-- The ring nodes for which there are both a point and a colour are tried first, then the fans. -/
  keys : (placements layout d).flatMap Addition.nodeKeys =
    (List.range (min layout.ring.length d.palette.ring.length)).map .ring ++
      [.fan .left, .fan .right]
  ok_iff : (s.addAll (placements layout d)).2 = .ok () ↔
    ∀ key ∈ (placements layout d).flatMap Addition.nodeKeys, key ∉ s.nodeKeys
  done : ∀ grown, s.addAll (placements layout d) = (grown, .ok ()) →
    s.Extended (placements layout d) grown
  stopped : ∀ grown e, s.addAll (placements layout d) = (grown, .error e) →
    ∃ before key center radius fill rest,
      placements layout d = before ++ .node key center radius fill :: rest ∧
        (∀ k ∈ before.flatMap Addition.nodeKeys, k ∉ s.nodeKeys) ∧ key ∈ s.nodeKeys ∧
        e = .duplicateNode key ∧ s.Extended before grown

theorem Indexed.placesPrefix {s : Scene} (indexed : s.Indexed) (layout : RingLayout)
    (d : Design) : s.PlacesPrefix layout d where
  keys := placements_nodeKeys layout d
  ok_iff := by
    rw [placements_nodeKeys]
    exact indexed.place_eq_ok_iff layout d
  done := fun _ done => indexed.addAll_extended done
  stopped := by
    intro grown e stopped
    obtain ⟨before, a, rest, split, legal, refused, extended⟩ := indexed.addAll_stops stopped
    have nodesOnly : ∀ b ∈ before ++ a :: rest,
        ∃ key center radius fill, b = .node key center radius fill := by
      intro b member
      rw [← split] at member
      exact exists_eq_node_of_mem_placements member
    obtain ⟨key, center, radius, fill, rfl⟩ :=
      nodesOnly a (List.mem_append_right before List.mem_cons_self)
    have triedOnly := fun b member => nodesOnly b (List.mem_append_left _ member)
    have distinct := indexed.nodeIndex.nodup NodeId.mk_injective
    have disjoint := List.disjoint_of_nodup_append ((allLegal_nodes_iff distinct triedOnly).1 legal)
    -- Keys of the layout do not repeat, so that a key that is taken was taken before.
    have once : (before.flatMap Addition.nodeKeys ++ key :: rest.flatMap Addition.nodeKeys).Nodup := by
      have all := nodup_placedKeys layout d
      rw [← placements_nodeKeys, split, List.flatMap_append, List.flatMap_cons] at all
      exact all
    cases refused with
    | duplicateNode taken =>
        refine ⟨before, key, center, radius, fill, rest, split, ?_, ?_, rfl, extended⟩
        · intro k tried there
          exact disjoint there tried
        · rcases List.mem_append.1 taken with there | tried
          · exact there
          · exact absurd List.mem_cons_self (List.disjoint_of_nodup_append once tried)

end Scene

/-! ### The edges of a plan -/

/-- Both ends of an edge are among these nodes, and they are different. -/
def EdgeKey.Joinable (nodes : List NodeKey) : EdgeKey → Prop
  | fan side => .fan side ∈ nodes ∧ .ring side.anchor ∈ nodes
  | ring i j => .ring i ∈ nodes ∧ .ring j ∈ nodes ∧ i ≠ j

theorem EdgeKey.joinable_iff {nodes : List NodeKey} {key : EdgeKey} :
    key.Joinable nodes ↔
      key.ends.1 ∈ nodes ∧ key.ends.2 ∈ nodes ∧ key.ends.1 ≠ key.ends.2 := by
  cases key with
  | fan side => simp [Joinable, ends]
  | ring i j => simp [Joinable, ends]

namespace Scene

/-- A plan can be drawn in a scene: its keys are new and distinct, and the ends of every edge are
there. -/
structure Drawable (s : Scene) (plan : List EdgeKey) : Prop where
  distinct : plan.Nodup
  fresh : ∀ key ∈ plan, key ∉ s.edgeKeys
  joinable : ∀ key ∈ plan, key.Joinable s.nodeKeys

theorem Indexed.allLegal_connections {s : Scene} (indexed : s.Indexed) (d : Design)
    {plan : List EdgeKey} :
    AllLegal s.nodeKeys s.edgeKeys (connections d plan) ↔ s.Drawable plan := by
  have distinct := indexed.edgeIndex.nodup EdgeId.mk_injective
  rw [allLegal_connections_iff distinct]
  constructor
  · rintro ⟨all, ends⟩
    refine ⟨(List.nodup_append.1 all).2.1, ?_, ?_⟩
    · intro key planned there
      exact (List.disjoint_of_nodup_append all) there planned
    · intro key planned
      exact EdgeKey.joinable_iff.2 (ends key planned)
  · intro drawable
    constructor
    · apply List.Nodup.append distinct drawable.distinct
      intro key there planned
      exact drawable.fresh key planned there
    · intro key planned
      exact EdgeKey.joinable_iff.1 (drawable.joinable key planned)

/-- What becomes of a scene when the edges of a plan are asked for. -/
structure ConnectsPrefix (s : Scene) (plan : List EdgeKey) (d : Design) : Prop where
  keys : (connections d plan).flatMap Addition.edgeKeys = plan
  ok_iff : (s.addAll (connections d plan)).2 = .ok () ↔ s.Drawable plan
  done : ∀ grown, s.addAll (connections d plan) = (grown, .ok ()) →
    s.Extended (connections d plan) grown
  stopped : ∀ grown e, s.addAll (connections d plan) = (grown, .error e) →
    ∃ before key rest, plan = before ++ key :: rest ∧ s.Drawable before ∧
      (Addition.edge key key.ends.1 key.ends.2 d.palette.neutral d.edgeWidth).Refused s.nodeKeys
        (s.edgeKeys ++ before) e ∧ s.Extended (connections d before) grown

theorem Indexed.connectsPrefix {s : Scene} (indexed : s.Indexed) (plan : List EdgeKey)
    (d : Design) : s.ConnectsPrefix plan d where
  keys := connections_edgeKeys d plan
  ok_iff := by
    rw [indexed.addAll_eq_ok_iff]
    exact indexed.allLegal_connections d
  done := fun _ done => indexed.addAll_extended done
  stopped := by
    intro grown e stopped
    obtain ⟨front, a, back, split, legal, refused, extended⟩ := indexed.addAll_stops stopped
    obtain ⟨before, others, rfl, rfl, joined⟩ := List.map_eq_append_iff.1 split
    obtain ⟨key, rest, rfl, rfl, _⟩ := List.map_eq_cons_iff.1 joined
    have noNodes := connections_nodeKeys d before
    have keys := connections_edgeKeys d before
    rw [connections] at noNodes keys
    rw [noNodes, keys, List.append_nil] at refused
    exact ⟨before, key, rest, rfl, (indexed.allLegal_connections d).1 legal, refused, extended⟩

/-- Whatever calls have made a scene, nodes and edges in bulk are added to it up to the first that is
illegal. -/
theorem run_bulk (canvas : Canvas) (calls : List Call) :
    (∀ layout d, ((empty canvas).run calls).PlacesPrefix layout d) ∧
      ∀ plan d, ((empty canvas).run calls).ConnectsPrefix plan d := by
  have indexed := (Indexed.empty canvas).run calls
  constructor
  · intro layout d
    exact indexed.placesPrefix layout d
  · intro plan d
    exact indexed.connectsPrefix plan d

/-- Two ring nodes, and a plan that repeats an edge: what comes after the repetition is not drawn. -/
example :
    let nodes : List Call := [.add (.node (.ring 0) ⟨0, 0⟩ 1 .neutralGray),
      .add (.node (.ring 1) ⟨9, 0⟩ 1 .neutralGray)]
    let plan : List EdgeKey := [.ring 0 1, .ring 0 1, .ring 1 0]
    (((empty .standard).run nodes).after (.connect plan .standard)).edgeKeys = [.ring 0 1] :=
  rfl

end Scene

end Emblem
