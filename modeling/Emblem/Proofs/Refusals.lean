/-
Module: Emblem.Proofs.Refusals
Purpose: Which designs have an artwork, and what the others are refused for: the check of the
  design, or else the first cue that points at nothing. All other stages go through.
Main exports: Cue.Target.Drawn, FirstUndrawn, Artwork.exists_of_covers, Artwork.ofDesign_outcome
-/
import Emblem.Artwork
import Emblem.Proofs.DesignCheck
import Emblem.Proofs.ScriptRun

namespace Emblem

/-- A cue names an element of the logo: a node of the ring, a fan, a fan edge, or the edge of a
joined pair with its indices in ascending order. -/
def Cue.Target.Drawn : Cue.Target → Prop
  | node (.ring i) => i < ringSize
  | node (.fan _) => True
  | edge (.fan _) => True
  | edge (.ring i j) => .ring i j ∈ ringPairs

instance : DecidablePred Cue.Target.Drawn
  | .node (.ring i) => inferInstanceAs (Decidable (i < ringSize))
  | .node (.fan _) => inferInstanceAs (Decidable True)
  | .edge (.fan _) => inferInstanceAs (Decidable True)
  | .edge (.ring i j) => inferInstanceAs (Decidable (.ring i j ∈ ringPairs))

/-- What is said of a cue that names nothing of the logo. -/
def Cue.Target.complaint : Cue.Target → String
  | node key => "layout error: no node " ++ key.describe ++ " in scene"
  | edge key => "layout error: no edge " ++ key.describe ++ " in scene"

theorem Cue.Target.message_missing (target : Cue.Target) :
    target.missing.message = target.complaint := by
  cases target with
  | node key => exact String.append_assoc.symm
  | edge key => exact String.append_assoc.symm

/-- A cue of a script is the first that names nothing of the logo. -/
def FirstUndrawn (script : List Cue) (cue : Cue) : Prop :=
  ∃ before rest, script = before ++ cue :: rest ∧ (∀ c ∈ before, c.target.Drawn) ∧
    ¬cue.target.Drawn

/-- A scene with the keys of the logo shows what the logo has. -/
theorem Scene.shows_iff_drawn {s : Scene} (nodes : s.nodeKeys = logoNodes)
    (edges : s.edgeKeys = edgePlan) (target : Cue.Target) :
    s.Shows target ↔ target.Drawn := by
  cases target with
  | node key =>
      rw [Shows, nodes]
      cases key with
      | ring i => simp [logoNodes, Cue.Target.Drawn]
      | fan side => cases side <;> simp [logoNodes, Side.all, Cue.Target.Drawn]
  | edge key =>
      rw [Shows, edges]
      cases key with
      | fan side => cases side <;> simp [edgePlan, Side.all, Cue.Target.Drawn]
      | ring i j => simp [edgePlan, Side.all, Cue.Target.Drawn]

/-! ### The stages after the script -/

theorem Loop.exists_period {l : Loop} {t : Timeline} (inside : l.terminal.index < t.size) :
    ∃ p, l.period t = .ok p := by
  have here : t.get? l.terminal = some t.steps[l.terminal.index] :=
    List.getElem?_eq_getElem inside
  unfold Loop.period
  rw [here]
  exact ⟨_, rfl⟩

/-- A binding leaves the steps pointing where they did. -/
theorem Scene.Covers.rebind {s : Scene} {t : Timeline} (covers : s.Covers t) (l : Loop) :
    s.Covers (l.bound t) := by
  intro step member
  obtain ⟨before, earlier, rfl⟩ := List.mem_map.1 member
  rw [Loop.rebind_target]
  exact covers before earlier

/-- A timeline that points into a scene can be drawn with it. -/
theorem Svg.exists_animated {s : Scene} {t : Timeline} (covers : s.Covers t) :
    ∃ drawing, Svg.animated s t = .ok drawing := by
  have specs : ∃ specs, s.specs t = .ok specs := by
    apply exists_mapM
    intro step member
    obtain ⟨id, named⟩ := covers step member
    exact ⟨_, bind_eq_ok_iff.2 ⟨id, named, rfl⟩⟩
  obtain ⟨specs, resolved⟩ := specs
  exact ⟨_, bind_eq_ok_iff.2 ⟨specs, resolved, rfl⟩⟩

namespace Artwork

/-- The stages that an artwork has come through, with the timeline of its script and the animated
drawing. -/
structure Stages (d : Design) (a : Artwork) (scripted : Scripted) (drawing : Svg.Element) :
    Prop where
  passed : d.validate = .ok ()
  scene : Scene.ofDesign d = .ok a.scene
  script : Timeline.ofScript a.scene d.script d.palette.highlight d.flash = .ok scripted
  loop : a.loop = ⟨scripted.terminal, d.loopPolicy⟩
  timeline : a.timeline = a.loop.bound scripted.timeline
  drawn : Svg.animated a.scene a.timeline = .ok drawing
  still : a.still = (Svg.ofScene a.scene).text
  moving : a.moving = drawing.text

theorem exists_stages {d : Design} {a : Artwork} (made : ofDesign d = .ok a) :
    ∃ scripted drawing, Stages d a scripted drawing := by
  obtain ⟨s, built, made⟩ := bind_eq_ok_iff.1 made
  obtain ⟨scripted, done, made⟩ := bind_eq_ok_iff.1 made
  obtain ⟨⟨rewritten, t⟩, bound, made⟩ := bind_eq_ok_iff.1 made
  obtain ⟨drawing, drawn, made⟩ := bind_eq_ok_iff.1 made
  obtain ⟨period, _, made⟩ := bind_eq_ok_iff.1 made
  cases made
  exact ⟨scripted, drawing, (check_bind_eq_ok_iff.1 built).1, built, done, rfl,
    (Loop.bind_eq_ok_iff.1 bound).2.2, drawn, rfl, rfl⟩

/-- The animated drawing has the animations of the timeline after the shapes. -/
theorem Stages.exists_specs {d : Design} {a : Artwork} {scripted : Scripted} {drawing : Svg.Element}
    (stages : Stages d a scripted drawing) :
    ∃ specs, a.specs = .ok specs ∧ drawing = (Svg.ofScene a.scene).append (specs.map Svg.animate) := by
  obtain ⟨specs, resolved, animated⟩ := bind_eq_ok_iff.1 stages.drawn
  cases animated
  exact ⟨specs, resolved, rfl⟩

/-- Once the script of a design has gone through and points into the scene, nothing more can be
refused. -/
theorem exists_of_covers {d : Design} {s : Scene} {scripted : Scripted}
    (built : Scene.ofDesign d = .ok s)
    (done : Timeline.ofScript s d.script d.palette.highlight d.flash = .ok scripted)
    (covers : s.Covers scripted.timeline) : ∃ a, ofDesign d = .ok a := by
  have inside := Timeline.terminal_lt done
  have bound := Loop.bind_of_lt (l := ⟨scripted.terminal, d.loopPolicy⟩) inside
  obtain ⟨drawing, drawn⟩ := Svg.exists_animated (covers.rebind ⟨scripted.terminal, d.loopPolicy⟩)
  have stillInside := inside
  rw [← Loop.bound_size ⟨scripted.terminal, d.loopPolicy⟩] at stillInside
  obtain ⟨p, period⟩ := Loop.exists_period (l := ⟨scripted.terminal, d.loopPolicy⟩) stillInside
  exact ⟨_, bind_eq_ok_iff.2 ⟨s, built, bind_eq_ok_iff.2 ⟨scripted, done, bind_eq_ok_iff.2
    ⟨_, bound, bind_eq_ok_iff.2 ⟨drawing, drawn, bind_eq_ok_iff.2 ⟨p, period, rfl⟩⟩⟩⟩⟩⟩

/-- A design that fails the check is refused as the check refuses it. -/
theorem ofDesign_of_invalid {d : Design} {e : Error} (refused : d.validate = .error e) :
    ofDesign d = .error e := by
  have noScene : Scene.ofDesign d = .error e := check_bind_eq_error_iff.2 (.inl refused)
  exact bind_eq_error_iff.2 (.inl noScene)

/-- A design that passes the check has an artwork if its cues name elements of the logo. -/
theorem exists_ofDesign_of_drawn {d : Design} (passed : d.validate = .ok ())
    (drawn : ∀ cue ∈ d.script, cue.target.Drawn) : ∃ a, ofDesign d = .ok a := by
  obtain ⟨s, built, indexed, nodes, edges⟩ := Scene.exists_ofDesign passed
  have sound := Design.validate_eq_ok_iff.1 passed
  have shown : ∀ cue ∈ d.script, s.Shows cue.target := by
    intro cue member
    exact (Scene.shows_iff_drawn nodes edges cue.target).2 (drawn cue member)
  have run : ∃ reached after,
      Timeline.addCues s none (Timeline.empty d.palette.highlight d.flash) d.script =
        .ok (reached, after) ∧ s.Covers after :=
    Timeline.exists_addCues indexed (s.covers_empty _ _) shown sound.starts
  obtain ⟨reached, after, added, covers⟩ := run
  cases reached with
  | none => exact absurd added (Timeline.addCues_ne_none (.inl sound.script))
  | some terminal =>
      have done : Timeline.ofScript s d.script d.palette.highlight d.flash =
          .ok ⟨after, terminal⟩ := Timeline.ofScript_eq_ok_iff.2 added
      exact exists_of_covers built done covers

/-- A design that passes the check is otherwise refused for the first cue that names no element
of the logo. -/
theorem ofDesign_of_firstUndrawn {d : Design} {cue : Cue} (passed : d.validate = .ok ())
    (first : FirstUndrawn d.script cue) : ofDesign d = .error cue.target.missing := by
  obtain ⟨before, rest, script, drawn, undrawn⟩ := first
  obtain ⟨s, built, indexed, nodes, edges⟩ := Scene.exists_ofDesign passed
  have sound := Design.validate_eq_ok_iff.1 passed
  have shown : ∀ c ∈ before, s.Shows c.target := by
    intro c member
    exact (Scene.shows_iff_drawn nodes edges c.target).2 (drawn c member)
  have absent : ¬s.Shows cue.target := by
    rw [Scene.shows_iff_drawn nodes edges]
    exact undrawn
  have starts : ∀ c ∈ before, Design.isStartTime c.start := by
    intro c member
    apply sound.starts c
    rw [script]
    exact List.mem_append_left _ member
  have stopped :
      Timeline.addCues s none (Timeline.empty d.palette.highlight d.flash) d.script =
        .error cue.target.missing := by
    rw [script]
    exact Timeline.addCues_of_missing indexed (s.covers_empty _ _) shown starts absent
  have noScript : Timeline.ofScript s d.script d.palette.highlight d.flash =
      .error cue.target.missing := bind_eq_error_iff.2 (.inl stopped)
  exact bind_eq_error_iff.2 (.inr ⟨s, built, bind_eq_error_iff.2 (.inl noScript)⟩)

/-- A script whose cues are not all drawn has a first such cue. -/
theorem exists_firstUndrawn {script : List Cue}
    (undrawn : ¬∀ cue ∈ script, cue.target.Drawn) : ∃ cue, FirstUndrawn script cue := by
  induction script with
  | nil => simp at undrawn
  | cons cue rest ih =>
      by_cases here : cue.target.Drawn
      · have later : ¬∀ c ∈ rest, c.target.Drawn := by
          intro all
          apply undrawn
          intro c member
          rcases List.mem_cons.1 member with rfl | member
          · exact here
          · exact all c member
        obtain ⟨c, before, after, split, drawn, missing⟩ := ih later
        refine ⟨c, cue :: before, after, by rw [split, List.cons_append], ?_, missing⟩
        intro b member
        rcases List.mem_cons.1 member with rfl | member
        · exact here
        · exact drawn b member
      · exact ⟨cue, [], rest, rfl, by simp, here⟩

/-- A design has an artwork just if it passes the check and all its cues name elements of the
logo. It is otherwise refused as the check refuses it, or for its first cue that names none, and
for no other reason. -/
theorem ofDesign_outcome (d : Design) :
    ((∃ a, ofDesign d = .ok a) ↔
      d.validate = .ok () ∧ ∀ cue ∈ d.script, cue.target.Drawn) ∧
    (∀ e, d.validate = .error e → ofDesign d = .error e ∧ e.stage? = some .validation) ∧
    (∀ cue, d.validate = .ok () → FirstUndrawn d.script cue →
      ∃ e, ofDesign d = .error e ∧ e = cue.target.missing ∧ e.stage? = some .layout ∧
        e.message = cue.target.complaint) ∧
    (∀ e, ofDesign d = .error e →
      d.validate = .error e ∨
        d.validate = .ok () ∧ ∃ cue, FirstUndrawn d.script cue ∧ e = cue.target.missing) := by
  have refused : ∀ e, ofDesign d = .error e →
      d.validate = .error e ∨
        d.validate = .ok () ∧ ∃ cue, FirstUndrawn d.script cue ∧ e = cue.target.missing := by
    intro e failed
    cases check : d.validate with
    | error e' =>
        rw [ofDesign_of_invalid check] at failed
        cases failed
        exact .inl rfl
    | ok u =>
        by_cases drawn : ∀ cue ∈ d.script, cue.target.Drawn
        · obtain ⟨a, made⟩ := exists_ofDesign_of_drawn check drawn
          rw [made] at failed
          cases failed
        · obtain ⟨cue, first⟩ := exists_firstUndrawn drawn
          rw [ofDesign_of_firstUndrawn check first] at failed
          cases failed
          exact .inr ⟨rfl, cue, first, rfl⟩
  refine ⟨⟨?_, fun good => exists_ofDesign_of_drawn good.1 good.2⟩, ?_, ?_, refused⟩
  · intro made
    obtain ⟨a, made⟩ := made
    cases check : d.validate with
    | error e =>
        rw [ofDesign_of_invalid check] at made
        cases made
    | ok u =>
        refine ⟨rfl, ?_⟩
        by_contra undrawn
        obtain ⟨cue, first⟩ := exists_firstUndrawn undrawn
        rw [ofDesign_of_firstUndrawn check first] at made
        cases made
  · intro e failed
    exact ⟨ofDesign_of_invalid failed, Design.stage?_of_validate failed⟩
  · intro cue passed first
    refine ⟨_, ofDesign_of_firstUndrawn passed first, rfl, ?_, cue.target.message_missing⟩
    cases cue.target with
    | node key => rfl
    | edge key => rfl

end Artwork

end Emblem
