/-
Module: Emblem.Proofs.CoordinateRange
Purpose: Which designs are drawn at finite coordinates. The check of a design looks at each measure by
  itself, so its sums with the centre can still overflow; the scene is finite just if the exact sums
  stay in the range of floats.
Main exports: Design.WithinRange, Design.Sound.withinRange, Design.Sound.forall_points_finite_iff,
  Scene.IsPlaced, Svg.Element.Readable, Scene.Geometry, Scene.ofDesign_geometry,
  Scene.ofDesign_overflows
-/
import Emblem.Proofs.AttributeValues
import Emblem.Proofs.FloatOrder
import Emblem.Proofs.SceneContents

namespace Emblem

/-! ### Fractions of a float -/

namespace Number

theorem value_one : value 1 = 1 := by
  have shape : binary 1 = .finite .positive (2 ^ 52) (-52) (by decide) := rfl
  rw [value, shape]
  norm_num [Binary.value, signed]

theorem isFinite_add_iff {x y : Float} (finite : x.isFinite) (finite' : y.isFinite) :
    (x + y).isFinite ↔ |value x + value y| < overflow :=
  (isRounded_add finite finite').isFinite_iff

theorem isFinite_sub_iff {x y : Float} (finite : x.isFinite) (finite' : y.isFinite) :
    (x - y).isFinite ↔ |value x - value y| < overflow :=
  (isRounded_sub finite finite').isFinite_iff

/-- A float between minus one and one. -/
structure IsFraction (c : Float) : Prop where
  finite : c.isFinite
  low : -1 ≤ c
  high : c ≤ 1

instance (c : Float) : Decidable (IsFraction c) :=
  decidable_of_iff (c.isFinite ∧ -1 ≤ c ∧ c ≤ 1)
    ⟨fun ⟨finite, low, high⟩ => ⟨finite, low, high⟩, fun h => ⟨h.finite, h.low, h.high⟩⟩

namespace IsFraction

variable {c c' r : Float}

theorem abs_value_le (fraction : IsFraction c) : |value c| ≤ 1 := by
  have low := (le_iff_value_le rfl fraction.finite).1 fraction.low
  have high := (le_iff_value_le fraction.finite rfl).1 fraction.high
  rw [value_neg rfl, value_one] at low
  rw [value_one] at high
  exact abs_le.2 ⟨low, high⟩

/-- A fraction of a finite float is finite. -/
theorem isFinite_mul (fraction : IsFraction c) (finite : r.isFinite) : (c * r).isFinite := by
  rw [(isRounded_mul fraction.finite finite).isFinite_iff, abs_mul]
  calc
    |value c| * |value r| ≤ 1 * |value r| :=
      mul_le_mul_of_nonneg_right fraction.abs_value_le (abs_nonneg _)
    _ = |value r| := one_mul _
    _ < overflow := abs_value_lt_overflow finite

theorem rounds_mul (fraction : IsFraction c) (finite : r.isFinite) :
    Rounds (value c * value r) (value (c * r)) :=
  (isRounded_mul fraction.finite finite).rounds (fraction.isFinite_mul finite)

/-- Greater fractions of a positive float are greater. -/
theorem value_mul_mono (fraction : IsFraction c) (fraction' : IsFraction c') (finite : r.isFinite)
    (nonneg : 0 ≤ value r) (le : c ≤ c') : value (c * r) ≤ value (c' * r) := by
  apply (fraction.rounds_mul finite).mono (fraction'.rounds_mul finite)
  have ordered := (le_iff_value_le fraction.finite fraction'.finite).1 le
  exact mul_le_mul_of_nonneg_right ordered nonneg

/-- The opposite fraction is the opposite float. -/
theorem value_neg_mul (fraction : IsFraction c) (opposite : IsFraction (-c)) (finite : r.isFinite) :
    value (-c * r) = -value (c * r) := by
  have negative := opposite.rounds_mul finite
  rw [value_neg fraction.finite, neg_mul] at negative
  exact negative.unique (fraction.rounds_mul finite).neg

end IsFraction

theorem isFraction_one : IsFraction 1 := by decide

/-- The whole of a float. -/
theorem value_one_mul {r : Float} (finite : r.isFinite) : value (1 * r) = value r := by
  have whole := isFraction_one.rounds_mul finite
  rw [value_one, one_mul] at whole
  exact whole.unique (rounds_value finite)

/-- Both sums with a number that is not negative stay below a bound just if the absolute values do. -/
theorem abs_add_abs_sub_lt_iff {a b t : ℚ} (nonneg : 0 ≤ b) :
    |a + b| < t ∧ |a - b| < t ↔ |a| + b < t := by
  simp only [abs_lt, ← lt_sub_iff_add_lt]
  constructor
  · intro sums
    obtain ⟨⟨_, _⟩, _, _⟩ := sums
    constructor <;> linarith
  · intro sum
    obtain ⟨_, _⟩ := sum
    refine ⟨⟨?_, ?_⟩, ?_, ?_⟩ <;> linarith

end Number

open Number

/-! ### Points of the layout -/

/-- Both coordinates of a point are finite. -/
def Point.IsFinite (p : Point) : Prop :=
  p.x.isFinite ∧ p.y.isFinite

/-- The greatest sine of a direction. -/
def greatestSine : Float := 0.8660254037844387

/-- The opposite of the least sine of a direction, which the angles make a little smaller. -/
def leastSine : Float := 0.8660254037844386

theorem directions_fractions : ∀ direction ∈ directions,
    IsFraction direction.1 ∧ IsFraction (-direction.2) ∧ -greatestSine ≤ -direction.2 ∧
      -direction.2 ≤ leastSine := by
  decide

theorem sines_fractions :
    IsFraction greatestSine ∧ IsFraction (-greatestSine) ∧ IsFraction leastSine := by
  decide

theorem mem_ringPositions {center p : Point} {r : Float} :
    p ∈ ringPositions center r ↔
      ∃ direction ∈ directions,
        p = ⟨center.x + direction.1 * r, center.y + -direction.2 * r⟩ := by
  simp only [ringPositions, List.mem_map]
  constructor
  · intro placed
    obtain ⟨direction, member, rfl⟩ := placed
    exact ⟨direction, member, rfl⟩
  · intro placed
    obtain ⟨direction, member, rfl⟩ := placed
    exact ⟨direction, member, rfl⟩

section Sums

variable {x r : Float} (finite : x.isFinite) (measure : Design.IsMeasure r)

include finite measure

/-- The sums with all cosines are finite just if those with one and minus one are. -/
theorem cosines_finite_iff :
    (∀ direction ∈ directions, (x + direction.1 * r).isFinite) ↔
      |value x| + value r < overflow := by
  have nonneg := (value_pos measure.1 measure.2).le
  have opposite : IsFraction (-1) := by decide
  have whole := value_one_mul measure.1
  have negative := isFraction_one.value_neg_mul opposite measure.1
  rw [whole] at negative
  rw [← abs_add_abs_sub_lt_iff nonneg]
  constructor
  · intro sums
    have east := sums (1, 0) (List.mem_of_getElem? (by rfl : directions[0]? = some _))
    have west := sums (-1, 0.00000000000000012246467991473532)
      (List.mem_of_getElem? (by rfl : directions[3]? = some _))
    rw [isFinite_add_iff finite (isFraction_one.isFinite_mul measure.1), whole] at east
    rw [isFinite_add_iff finite (opposite.isFinite_mul measure.1), negative, ← sub_eq_add_neg] at west
    exact ⟨east, west⟩
  · intro bounds direction member
    -- Rounding is monotone, so all products lie between those with minus one and one.
    obtain ⟨cosine, -, -, -⟩ := directions_fractions direction member
    have low := opposite.value_mul_mono cosine measure.1 nonneg cosine.low
    have high := cosine.value_mul_mono isFraction_one measure.1 nonneg cosine.high
    rw [negative] at low
    rw [whole] at high
    rw [isFinite_add_iff finite (cosine.isFinite_mul measure.1), abs_lt]
    have east := abs_lt.1 bounds.1
    have west := abs_lt.1 bounds.2
    constructor <;> linarith

/-- The sums with all sines, of which the greatest leads up the page, are finite just if those with
the greatest and the least are. -/
theorem sines_finite_iff :
    (∀ direction ∈ directions, (x + -direction.2 * r).isFinite) ↔
      value (greatestSine * r) - value x < overflow ∧ value x + value (leastSine * r) < overflow := by
  have nonneg := (value_pos measure.1 measure.2).le
  obtain ⟨greatest, opposite, least⟩ := sines_fractions
  have negative := greatest.value_neg_mul opposite measure.1
  constructor
  · intro sums
    have top := sums (-0.4999999999999998, greatestSine)
      (List.mem_of_getElem? (by rfl : directions[2]? = some _))
    have bottom := sums (0.5000000000000001, -leastSine)
      (List.mem_of_getElem? (by rfl : directions[5]? = some _))
    have twice : -(-leastSine) = leastSine := by decide
    simp only [twice] at bottom
    rw [isFinite_add_iff finite (opposite.isFinite_mul measure.1), negative, abs_lt] at top
    rw [isFinite_add_iff finite (least.isFinite_mul measure.1), abs_lt] at bottom
    exact ⟨by linarith [top.1], bottom.2⟩
  · intro bounds direction member
    obtain ⟨-, sine, above, below⟩ := directions_fractions direction member
    have low := opposite.value_mul_mono sine measure.1 nonneg above
    have high := sine.value_mul_mono least measure.1 nonneg below
    rw [negative] at low
    rw [isFinite_add_iff finite (sine.isFinite_mul measure.1), abs_lt]
    constructor <;> linarith [bounds.1, bounds.2]

/-- Both fans are at finite coordinates just if their sums are in range. -/
theorem fans_finite_iff :
    (x - r).isFinite ∧ (x + r).isFinite ↔ |value x| + value r < overflow := by
  have nonneg := (value_pos measure.1 measure.2).le
  rw [isFinite_sub_iff finite measure.1, isFinite_add_iff finite measure.1, and_comm]
  exact abs_add_abs_sub_lt_iff nonneg

end Sums

/-- All points of a layout, the ring first. -/
def RingLayout.points (layout : RingLayout) : List Point :=
  layout.ring ++ Side.all.map layout.fan

/-- The sums of a design's centre with its distances stay in the range of floats. Across the page
both signs occur; up and down it, the greatest sines on both sides differ a little. -/
structure Design.WithinRange (d : Design) : Prop where
  ring : |value d.center.x| + value d.ringRadius < overflow
  fans : |value d.center.x| + value d.fanDistance < overflow
  top : value (greatestSine * d.ringRadius) - value d.center.y < overflow
  bottom : value d.center.y + value (leastSine * d.ringRadius) < overflow

/-- Designs that take less than half of the range in every direction stay within it. -/
theorem Design.Sound.withinRange {d : Design} (sound : d.Sound)
    (x : |value d.center.x| < overflow / 2) (y : |value d.center.y| < overflow / 2)
    (ring : value d.ringRadius < overflow / 2) (fans : value d.fanDistance < overflow / 2) :
    d.WithinRange := by
  obtain ⟨greatest, -, least⟩ := sines_fractions
  have nonneg := (value_pos sound.ringRadius.1 sound.ringRadius.2).le
  have whole := value_one_mul sound.ringRadius.1
  have top := greatest.value_mul_mono isFraction_one sound.ringRadius.1 nonneg greatest.high
  have bottom := least.value_mul_mono isFraction_one sound.ringRadius.1 nonneg least.high
  rw [whole] at top bottom
  have middle := abs_lt.1 y
  exact ⟨by linarith, by linarith, by linarith [middle.1], by linarith [middle.2]⟩

/-- The layout of a sound design is finite just if the design stays within range. -/
theorem Design.Sound.forall_points_finite_iff {d : Design} (sound : d.Sound) :
    (∀ p ∈ d.layout.points, p.IsFinite) ↔ d.WithinRange := by
  have across := cosines_finite_iff sound.center.1 sound.ringRadius
  have upright := sines_finite_iff sound.center.2 sound.ringRadius
  have beside := fans_finite_iff sound.center.1 sound.fanDistance
  have ring : (∀ p ∈ d.layout.ring, p.IsFinite) ↔
      (∀ direction ∈ directions, (d.center.x + direction.1 * d.ringRadius).isFinite) ∧
        ∀ direction ∈ directions, (d.center.y + -direction.2 * d.ringRadius).isFinite := by
    constructor
    · intro points
      exact ⟨fun direction member => (points _ (mem_ringPositions.2 ⟨direction, member, rfl⟩)).1,
        fun direction member => (points _ (mem_ringPositions.2 ⟨direction, member, rfl⟩)).2⟩
    · intro sums p member
      obtain ⟨direction, listed, rfl⟩ := mem_ringPositions.1 member
      exact ⟨sums.1 direction listed, sums.2 direction listed⟩
  have fans : (∀ p ∈ Side.all.map d.layout.fan, p.IsFinite) ↔
      (d.center.x - d.fanDistance).isFinite ∧ (d.center.x + d.fanDistance).isFinite := by
    simp [Side.all, Point.IsFinite, RingLayout.fan, Design.layout, RingLayout.compute, fanPositions,
      sound.center.2]
  rw [RingLayout.points, List.forall_mem_append, ring, fans, across, upright, beside]
  constructor
  · intro bounds
    obtain ⟨⟨ring, top, bottom⟩, fans⟩ := bounds
    exact ⟨ring, fans, top, bottom⟩
  · intro within
    exact ⟨⟨within.ring, within.top, within.bottom⟩, within.fans⟩

/-! ### Points of the scene -/

/-- The circle that a node draws. -/
def Node.disc (n : Node) : Point × Float :=
  (n.center, n.radius)

/-- The circles that an addition brings. -/
def Addition.discs : Addition → List (Point × Float)
  | node _ center radius _ => [(center, radius)]
  | edge .. => []

/-- Every palette with enough colours lets the whole layout be placed. -/
theorem placements_discs {layout : RingLayout} {d : Design}
    (full : layout.ring.length ≤ d.palette.ring.length) :
    (placements layout d).flatMap Addition.discs = layout.points.map fun p => (p, d.nodeRadius) := by
  have ring : ((layout.ring.zip d.palette.ring).zipIdx.map Prod.fst).map Prod.fst = layout.ring := by
    rw [List.zipIdx_map_fst, List.map_fst_zip full]
  simp only [placements, RingLayout.points, List.flatMap_append, List.flatMap_map, Addition.discs,
    ← List.map_eq_flatMap, List.map_append, List.map_map]
  congr 1
  conv => rhs; rw [← ring]
  simp only [List.map_map]
  rfl

namespace Scene

/-- Nodes stand, and edges begin and end, at finite coordinates. -/
structure IsPlaced (s : Scene) : Prop where
  centers : ∀ n ∈ s.nodes, n.center.IsFinite
  ends : ∀ e ∈ s.edges, e.sourcePoint.IsFinite ∧ e.targetPoint.IsFinite

namespace Contents

variable {d : Design} {s : Scene}

theorem discs (contents : s.Contents d) (full : d.palette.ring.length = ringSize) :
    s.nodes.map Node.disc = d.layout.points.map fun p => (p, d.nodeRadius) := by
  have places : d.layout.ring.length = ringSize := rfl
  rw [← placements_discs (places.trans full.symm).le, ← contents.nodes, List.flatMap_map]
  exact List.map_eq_flatMap

/-- The nodes of a scene stand where the layout has them. -/
theorem centers_eq (contents : s.Contents d) (full : d.palette.ring.length = ringSize) :
    s.nodes.map Node.center = d.layout.points := by
  have firsts := congrArg (List.map Prod.fst) (contents.discs full)
  simpa [List.map_map, Function.comp_def, Node.disc] using firsts

/-- Edges end at nodes, so only the layout counts. -/
theorem isPlaced_iff (contents : s.Contents d) (full : d.palette.ring.length = ringSize) :
    s.IsPlaced ↔ ∀ p ∈ d.layout.points, p.IsFinite := by
  rw [← contents.centers_eq full, List.forall_mem_map]
  constructor
  · intro placed
    exact placed.centers
  · intro centers
    refine ⟨centers, ?_⟩
    intro e member
    obtain ⟨_, a, b, source, target, start, stop⟩ := contents.indexed.joins e member
    rw [start, stop]
    exact ⟨centers a (List.mem_of_getElem? source), centers b (List.mem_of_getElem? target)⟩

end Contents

end Scene

/-! ### Coordinates in the drawing -/

/-- Ids and colours begin otherwise than the texts of floats that are not finite. -/
theorem not_mem_nonFiniteTexts {text : String} {c : Char} {rest : List Char}
    (begins : text.toList = c :: rest) (other : c ∉ ['i', '-', 'N']) : text ∉ nonFiniteTexts := by
  have heads : nonFiniteTexts.map (·.toList.head?) = ['i', '-', 'N'].map some := by decide
  intro member
  have head := List.mem_map_of_mem (f := (·.toList.head?)) member
  rw [heads, begins] at head
  obtain ⟨_, listed, same⟩ := List.mem_map.1 head
  cases same
  exact other listed

theorem NodeKey.elementId_not_mem (key : NodeKey) : key.elementId ∉ nonFiniteTexts := by
  cases key with
  | ring i => exact not_mem_nonFiniteTexts (String.toList_append ..) (by decide)
  | fan side => cases side <;> decide

theorem EdgeKey.elementId_not_mem (key : EdgeKey) : key.elementId ∉ nonFiniteTexts := by
  cases key with
  | fan side => cases side <;> decide
  | ring i j =>
      have begins : (EdgeKey.ring i j).elementId.toList =
          "edge-".toList ++ ((toString i).toList ++ ("-".toList ++ (toString j).toList)) := by
        simp only [elementId, String.toList_append, List.append_assoc]
      exact not_mem_nonFiniteTexts begins (by decide)

theorem Color.toHex_not_mem (c : Color) : c.toHex ∉ nonFiniteTexts :=
  not_mem_nonFiniteTexts String.toList_ofList (by decide)

namespace Svg

/-- No attribute of an element reads as a float that is not finite. -/
def Element.Readable (e : Element) : Prop :=
  ∀ a ∈ e.attributes, a.2 ∉ nonFiniteTexts

theorem readable_line_iff {e : Edge} (width : e.width.isFinite) :
    (line e).Readable ↔ e.sourcePoint.IsFinite ∧ e.targetPoint.IsFinite := by
  simp only [Element.Readable, line, Element.attributes, List.forall_mem_cons, List.not_mem_nil,
    false_imp_iff, implies_true, and_true, Number.plain_mem_nonFiniteTexts_iff, not_not,
    e.key.elementId_not_mem, e.stroke.toHex_not_mem, not_false_eq_true, true_and, width,
    Point.IsFinite, and_assoc]

theorem readable_circle_iff {n : Node} (radius : n.radius.isFinite) :
    (circle n).Readable ↔ n.center.IsFinite := by
  simp only [Element.Readable, circle, Element.attributes, List.forall_mem_cons, List.not_mem_nil,
    false_imp_iff, implies_true, and_true, Number.plain_mem_nonFiniteTexts_iff, not_not,
    n.key.elementId_not_mem, n.fill.toHex_not_mem, not_false_eq_true, true_and, radius,
    Point.IsFinite]

end Svg

/-! ### Scenes of sound designs -/

/-- A design with its centre so far to the right that the right fan is out of range, although each
measure by itself is in range. -/
def Design.farRight : Design :=
  { standard with center := ⟨1.5e308, 65.0⟩, fanDistance := 1.5e308 }

namespace Scene

/-- Which numbers of a design's scene are finite, and which numbers can be read in its drawing. -/
structure Geometry (d : Design) (s : Scene) : Prop where
  radii : ∀ n ∈ s.nodes, n.radius.isFinite
  widths : ∀ e ∈ s.edges, e.width.isFinite
  placed_iff : s.IsPlaced ↔ d.WithinRange
  readable_iff : (∀ e ∈ (Svg.ofScene s).children, e.Readable) ↔ d.WithinRange

/-- The shapes of a drawing can be read just if nodes and edges are placed. -/
theorem forall_readable_iff {s : Scene} (radii : ∀ n ∈ s.nodes, n.radius.isFinite)
    (widths : ∀ e ∈ s.edges, e.width.isFinite) :
    (∀ e ∈ (Svg.ofScene s).children, e.Readable) ↔ s.IsPlaced := by
  have shapes : (Svg.ofScene s).children = s.edges.map Svg.line ++ s.nodes.map Svg.circle := rfl
  rw [shapes, List.forall_mem_append, List.forall_mem_map, List.forall_mem_map]
  constructor
  · intro readable
    exact ⟨fun n member => (Svg.readable_circle_iff (radii n member)).1 (readable.2 n member),
      fun e member => (Svg.readable_line_iff (widths e member)).1 (readable.1 e member)⟩
  · intro placed
    exact ⟨fun e member => (Svg.readable_line_iff (widths e member)).2 (placed.ends e member),
      fun n member => (Svg.readable_circle_iff (radii n member)).2 (placed.centers n member)⟩

/-- Every design that passes the check has a scene with finite measures. Its points are finite, and
its drawing can be read, just if the design also stays within range. -/
theorem ofDesign_geometry {d : Design} (passed : d.validate = .ok ()) :
    ∃ s, ofDesign d = .ok s ∧ s.Geometry d := by
  obtain ⟨s, made, _⟩ := exists_ofDesign passed
  have sound := Design.validate_eq_ok_iff.1 passed
  have contents := ofDesign_contents made
  have radii : ∀ n ∈ s.nodes, n.radius.isFinite := by
    intro n member
    rw [(contents.node_look member).2.2]
    exact sound.nodeRadius.1
  have widths : ∀ e ∈ s.edges, e.width.isFinite := by
    intro e member
    rw [(contents.edge_look member).2]
    exact sound.edgeWidth.1
  have placed : s.IsPlaced ↔ d.WithinRange :=
    (contents.isPlaced_iff sound.palette).trans sound.forall_points_finite_iff
  exact ⟨s, made, radii, widths, placed, (forall_readable_iff radii widths).trans placed⟩

theorem ofDesign_geometry_standard : Design.standard.validate = .ok () ∧
    ∃ s, ofDesign .standard = .ok s ∧ s.Geometry .standard :=
  ⟨rfl, ofDesign_geometry rfl⟩

/-- The check passes a design whose right fan is out of range: its circle is at `inf`. -/
theorem ofDesign_overflows : Design.farRight.validate = .ok () ∧
    ∃ s, ofDesign .farRight = .ok s ∧ ∃ n ∈ s.nodes, n.key = .fan .right ∧ ¬n.center.IsFinite ∧
      (Svg.circle n).attribute? "cx" = some "inf" := by
  have usual : Design.standard.Sound := Design.validate_eq_ok_iff.1 rfl
  have far : (1.5e308 : Float).isFinite ∧ 0 < (1.5e308 : Float) := by decide +kernel
  -- Field by field, since a comparison of the two designs would evaluate their numbers.
  have sound : Design.farRight.Sound :=
    ⟨usual.canvas, ⟨far.1, usual.center.2⟩, usual.nodeRadius, usual.ringRadius, far,
      usual.edgeWidth, usual.rampIn, usual.rampOut, usual.palette, usual.script, usual.starts⟩
  have passed := Design.validate_eq_ok_iff.2 sound
  obtain ⟨s, made, _⟩ := exists_ofDesign passed
  have placed : Addition.node (.fan .right) Design.farRight.layout.right 15 .neutralGray ∈
      placements Design.farRight.layout .farRight :=
    List.mem_append_right _ (List.mem_map_of_mem (f := fun side => Addition.node (.fan side) _ _ _)
      (by decide : Side.right ∈ Side.all))
  rw [← (ofDesign_contents made).nodes] at placed
  obtain ⟨n, member, same⟩ := List.mem_map.1 placed
  obtain ⟨key, center, _⟩ := Addition.node.inj same
  have reach : Number.plain (1.5e308 + 1.5e308) = "inf" := by decide +kernel
  have beyond : ¬(1.5e308 + 1.5e308 : Float).isFinite := by decide +kernel
  refine ⟨passed, s, made, n, member, key, ?_, ?_⟩
  · rw [center]
    exact fun finite => beyond finite.1
  · have coordinate : (Svg.circle n).attribute? "cx" = some (Number.plain n.center.x) := rfl
    rw [coordinate, center]
    exact congrArg some reach

end Scene

end Emblem
