/-
Module: Emblem.Proofs.DesignCheck
Purpose: What the check of a design admits, and that every design it admits has its scene, with the
  keys of the logo in it.
Main exports: Design.Sound, Design.validate_eq_ok_iff, Design.stage?_of_validate, logoNodes,
  Scene.exists_ofDesign
-/
import Emblem.Proofs.Legality

namespace Emblem

namespace Design

/-- A measure that can be drawn or waited for. -/
def IsMeasure (value : Float) : Prop :=
  value.isFinite ∧ 0 < value

/-- A design that makes sense. -/
structure Sound (d : Design) : Prop where
  canvas : d.canvas.width ≠ 0 ∧ d.canvas.height ≠ 0
  center : d.center.x.isFinite ∧ d.center.y.isFinite
  nodeRadius : IsMeasure d.nodeRadius
  ringRadius : IsMeasure d.ringRadius
  fanDistance : IsMeasure d.fanDistance
  edgeWidth : IsMeasure d.edgeWidth
  rampIn : IsMeasure d.flash.rampIn
  rampOut : IsMeasure d.flash.rampOut
  palette : d.palette.ring.length = ringSize
  script : d.script ≠ []
  starts : ∀ cue ∈ d.script, isStartTime cue.start

theorem require_eq_ok_iff {p : Prop} [Decidable p] {e : Error} :
    require p e = .ok () ↔ p := by
  unfold require
  split <;> simp_all

theorem require_eq_error_iff {p : Prop} [Decidable p] {e e' : Error} :
    require p e = .error e' ↔ ¬p ∧ e = e' := by
  unfold require
  split <;> simp_all

theorem checkPositive_eq_ok_iff {dimension : Dimension} {value : Float} :
    checkPositive dimension value = .ok () ↔ IsMeasure value :=
  require_eq_ok_iff

theorem checkStarts_eq_ok_iff {script : List Cue} :
    checkStarts script = .ok () ↔ ∀ cue ∈ script, isStartTime cue.start := by
  unfold checkStarts
  cases bad : script.find? fun cue => !isStartTime cue.start with
  | none => simpa [List.find?_eq_none] using bad
  | some cue =>
      constructor
      · intro impossible
        cases impossible
      · intro all
        have good := all cue (List.mem_of_find?_eq_some bad)
        have notGood := List.find?_some bad
        simp [good] at notGood

/-- The check passes the sound designs and no others. -/
theorem validate_eq_ok_iff {d : Design} : d.validate = .ok () ↔ d.Sound := by
  simp only [validate, check_bind_eq_ok_iff, require_eq_ok_iff, checkPositive_eq_ok_iff,
    checkStarts_eq_ok_iff]
  constructor
  · intro passed
    obtain ⟨canvas, center, nodes, ring, fans, edges, rampIn, rampOut, palette, script, starts⟩ :=
      passed
    exact ⟨canvas, center, nodes, ring, fans, edges, rampIn, rampOut, palette, script, starts⟩
  · intro sound
    exact ⟨sound.canvas, sound.center, sound.nodeRadius, sound.ringRadius, sound.fanDistance,
      sound.edgeWidth, sound.rampIn, sound.rampOut, sound.palette, sound.script, sound.starts⟩

/-- Work that is refused at one stage only. -/
def RefusesAt (stage : Stage) (x : Except Error Unit) : Prop :=
  ∀ e, x = .error e → e.stage? = some stage

theorem RefusesAt.require {stage : Stage} {p : Prop} [Decidable p] {e : Error}
    (stated : e.stage? = some stage) : RefusesAt stage (require p e) := by
  intro e' refused
  obtain ⟨_, rfl⟩ := require_eq_error_iff.1 refused
  exact stated

theorem RefusesAt.check_bind {stage : Stage} {check : Except Error Unit}
    {rest : Unit → Except Error Unit} (first : RefusesAt stage check)
    (second : RefusesAt stage (rest ())) : RefusesAt stage (check >>= rest) := by
  intro e refused
  rcases check_bind_eq_error_iff.1 refused with here | ⟨_, later⟩
  · exact first e here
  · exact second e later

theorem RefusesAt.checkStarts (script : List Cue) :
    RefusesAt .validation (checkStarts script) := by
  intro e refused
  unfold Design.checkStarts at refused
  split at refused
  · cases refused
    rfl
  · cases refused

/-- What the check refuses, it refuses as a matter of validation. -/
theorem stage?_of_validate {d : Design} {e : Error} (refused : d.validate = .error e) :
    e.stage? = some .validation := by
  have whole : RefusesAt .validation d.validate := by
    unfold validate
    repeat refine RefusesAt.check_bind (RefusesAt.require rfl) ?_
    exact RefusesAt.checkStarts d.script
  exact whole e refused

end Design

/-- The keys of the nodes of every logo. -/
def logoNodes : List NodeKey :=
  (List.range ringSize).map .ring ++ Side.all.map .fan

/-- A sound design has a colour for every place of its layout. -/
theorem Design.Sound.placedKeys_eq {d : Design} (sound : d.Sound) :
    placedKeys d.layout d = logoNodes := by
  have places : d.layout.ring.length = ringSize := rfl
  unfold placedKeys
  rw [places, sound.palette, Nat.min_self]
  rfl

/-- All nodes of the logo can be placed, and then all edges of the plan can be drawn. -/
theorem logo_legal :
    logoNodes.Nodup ∧ edgePlan.Nodup ∧ ∀ key ∈ edgePlan,
      key.ends.1 ∈ logoNodes ∧ key.ends.2 ∈ logoNodes ∧ key.ends.1 ≠ key.ends.2 := by
  decide

/-- A design that passes the check has a scene with all nodes and edges of the logo. -/
theorem Scene.exists_ofDesign {d : Design} (passed : d.validate = .ok ()) :
    ∃ s, Scene.ofDesign d = .ok s ∧ s.Indexed ∧ s.nodeKeys = logoNodes ∧
      s.edgeKeys = edgePlan := by
  obtain ⟨nodesDistinct, edgesDistinct, ends⟩ := logo_legal
  have keys := (Design.validate_eq_ok_iff.1 passed).placedKeys_eq
  have blank := Indexed.empty d.canvas
  -- First the nodes, on an empty scene.
  have placed : ((Scene.empty d.canvas).addAll (placements d.layout d)).2 = .ok () := by
    rw [blank.addAll_eq_ok_iff, nodeKeys_empty, edgeKeys_empty,
      allLegal_placements_iff List.nodup_nil, List.nil_append, keys]
    exact nodesDistinct
  obtain ⟨nodes, noEdges⟩ := addAll_keys placed
  rw [placements_nodeKeys, keys, nodeKeys_empty, List.nil_append] at nodes
  rw [placements_edgeKeys, edgeKeys_empty, List.nil_append] at noEdges
  -- Then the edges, on what the nodes have left.
  have standing := blank.addAll (placements d.layout d)
  generalize stand : (Scene.empty d.canvas).addAll (placements d.layout d) = nodesStage at *
  obtain ⟨s, outcome⟩ := nodesStage
  simp only at placed nodes noEdges standing
  subst placed
  have connected : (s.addAll (connections d edgePlan)).2 = .ok () := by
    rw [standing.addAll_eq_ok_iff, nodes, noEdges, allLegal_connections_iff List.nodup_nil]
    exact ⟨edgesDistinct, ends⟩
  obtain ⟨sameNodes, edges⟩ := addAll_keys connected
  rw [connections_nodeKeys, List.append_nil, nodes] at sameNodes
  rw [connections_edgeKeys, noEdges, List.nil_append] at edges
  refine ⟨(s.addAll (connections d edgePlan)).1, ?_, standing.addAll _, sameNodes, edges⟩
  simp only [ofDesign, passed, stand, connected]
  rfl

end Emblem
