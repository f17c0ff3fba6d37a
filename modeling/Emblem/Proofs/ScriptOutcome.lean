/-
Module: Emblem.Proofs.ScriptOutcome
Purpose: What scripts come to: two steps for each cue, in order, or the refusal of the first cue that
  cannot be played. That a cue names nothing counts before what its start is.
Main exports: Scene.Prompts, Scene.Plays, Scene.Rejects, Timeline.addCues_eq_ok,
  Timeline.addCues_eq_error, Scene.Performs, Scene.run_performs
-/
import Emblem.Proofs.FlashHistory
import Emblem.Proofs.Refusals

namespace Emblem

namespace Scene

/-- The flash that a cue asks for: one of the element that has its key, from the colour that this
element has in the scene. -/
inductive Prompts (s : Scene) : Cue → Flash → Prop where
  | node {n : Node} (member : n ∈ s.nodes) (start : Float) :
      s.Prompts ⟨.node n.key, start⟩ ⟨.node n.id, n.fill, start, .fill⟩
  | edge {e : Edge} (member : e ∈ s.edges) (start : Float) :
      s.Prompts ⟨.edge e.key, start⟩ ⟨.edge e.id, e.stroke, start, .stroke⟩

/-- A cue names an element of the scene, and its start is a time of a cycle. -/
def Plays (s : Scene) (cue : Cue) : Prop :=
  (∃ f, s.Prompts cue f) ∧ cue.start.isFinite ∧ ¬cue.start < 0

/-- What a cue is refused for: that it names nothing, whatever its start is, or else its start. -/
inductive Rejects (s : Scene) : Cue → Error → Prop where
  | missing {cue : Cue} (absent : ¬∃ f, s.Prompts cue f) : s.Rejects cue cue.target.missing
  | badStart {cue : Cue} {f : Flash} (prompts : s.Prompts cue f)
      (bad : ¬cue.start.isFinite ∨ cue.start < 0) :
      s.Rejects cue (.badFlashStart f.target cue.start)

variable {s : Scene} {cue : Cue} {f : Flash}

theorem Prompts.start_eq (prompts : s.Prompts cue f) : f.start = cue.start := by
  cases prompts <;> rfl

/-- A cue asks for a flash if the scene has the element that it names. -/
theorem exists_prompts_iff : (∃ f, s.Prompts cue f) ↔ s.Shows cue.target := by
  constructor
  · intro prompted
    obtain ⟨f, prompts⟩ := prompted
    cases prompts with
    | node member start => exact List.mem_map_of_mem member
    | edge member start => exact List.mem_map_of_mem member
  · intro shown
    obtain ⟨target, start⟩ := cue
    cases target with
    | node key =>
        obtain ⟨n, member, rfl⟩ := List.mem_map.1 shown
        exact ⟨_, .node member start⟩
    | edge key =>
        obtain ⟨e, member, rfl⟩ := List.mem_map.1 shown
        exact ⟨_, .edge member start⟩

theorem Plays.isStartTime (plays : s.Plays cue) : Design.isStartTime cue.start := by
  simpa [Design.isStartTime] using plays.2

end Scene

namespace Timeline

variable {s : Scene}

/-- A cue flashes the element that it finds. -/
theorem addCue_of_resolve {cue : Cue} {target : ElementRef} {resting : Color}
    (found : s.resolve cue.target = .ok target) (color : s.restingColor target = .ok resting)
    (t : Timeline) : addCue s t cue = t.flash target resting cue.start (.ofTarget target) := by
  have colored : (s.restingColor target >>= fun c => t.flash target c cue.start (.ofTarget target)) =
      t.flash target resting cue.start (.ofTarget target) := by
    rw [color]
    rfl
  rw [addCue, found]
  exact colored

/-- A cue flashes the element that it names. -/
theorem addCue_of_prompts (indexed : s.Indexed) {cue : Cue} {f : Flash}
    (prompts : s.Prompts cue f) (t : Timeline) :
    addCue s t cue = t.flash f.target f.resting f.start f.property := by
  cases prompts with
  | @node n member start =>
      have found : s.resolve (.node n.key) = .ok (.node n.id) :=
        map_eq_ok_iff.2 ⟨n, indexed.nodeByKey_eq_ok_iff.2 ⟨member, rfl⟩, rfl⟩
      have color : s.restingColor (.node n.id) = .ok n.fill :=
        map_eq_ok_iff.2 ⟨n, indexed.node_self member, rfl⟩
      exact addCue_of_resolve found color t
  | @edge e member start =>
      have found : s.resolve (.edge e.key) = .ok (.edge e.id) :=
        map_eq_ok_iff.2 ⟨e, indexed.edgeByKey_eq_ok_iff.2 ⟨member, rfl⟩, rfl⟩
      have color : s.restingColor (.edge e.id) = .ok e.stroke :=
        map_eq_ok_iff.2 ⟨e, indexed.edge_self member, rfl⟩
      exact addCue_of_resolve found color t

theorem addCue_of_absent (indexed : s.Indexed) {cue : Cue} (absent : ¬∃ f, s.Prompts cue f)
    (t : Timeline) : addCue s t cue = .error cue.target.missing := by
  rw [Scene.exists_prompts_iff] at absent
  exact bind_eq_error_iff.2 (.inl (indexed.resolve_of_not_shows absent))

/-- A cue succeeds with its flash. -/
theorem addCue_eq_ok (indexed : s.Indexed) {t after : Timeline} {cue : Cue} {id : StepId}
    (added : addCue s t cue = .ok (id, after)) :
    s.Plays cue ∧ ∃ f, s.Prompts cue f ∧
      after = t.pushFlash f.target f.resting f.start f.property := by
  by_cases prompted : ∃ f, s.Prompts cue f
  · obtain ⟨f, prompts⟩ := prompted
    rw [addCue_of_prompts indexed prompts] at added
    obtain ⟨starts, _, grown⟩ := flash_eq_ok_iff.1 added
    rw [prompts.start_eq] at starts
    have time : cue.start.isFinite ∧ ¬cue.start < 0 := by
      simpa [Design.isStartTime] using starts
    exact ⟨⟨⟨f, prompts⟩, time⟩, f, prompts, grown⟩
  · rw [addCue_of_absent indexed prompted] at added
    cases added

/-- A cue is refused for what is wrong with it, whatever the timeline holds already. -/
theorem addCue_eq_error_iff (indexed : s.Indexed) {t : Timeline} {cue : Cue} {e : Error} :
    addCue s t cue = .error e ↔ s.Rejects cue e := by
  constructor
  · intro refused
    by_cases prompted : ∃ f, s.Prompts cue f
    · obtain ⟨f, prompts⟩ := prompted
      rw [addCue_of_prompts indexed prompts] at refused
      obtain ⟨bad, rfl⟩ := flash_eq_error_iff.1 refused
      rw [prompts.start_eq] at bad ⊢
      exact .badStart prompts bad
    · rw [addCue_of_absent indexed prompted] at refused
      cases refused
      exact .missing prompted
  · intro rejects
    cases rejects with
    | missing absent => exact addCue_of_absent indexed absent t
    | @badStart f prompts bad =>
        rw [addCue_of_prompts indexed prompts]
        rw [← prompts.start_eq] at bad ⊢
        exact flash_eq_error_iff.2 ⟨bad, rfl⟩

/-- A list of cues succeeds if each of them can be played, and adds their flashes in order. -/
theorem addCues_eq_ok (indexed : s.Indexed) {highlight : Color} {ramps : Ramps}
    {earlier : List Flash} {cues : List Cue} {last reached : Option StepId} {after : Timeline}
    (added : addCues s last (ofFlashes highlight ramps earlier) cues = .ok (reached, after)) :
    (∀ cue ∈ cues, s.Plays cue) ∧ ∃ fs, List.Forall₂ s.Prompts cues fs ∧
      after = ofFlashes highlight ramps (earlier ++ fs) := by
  induction cues generalizing last earlier with
  | nil =>
      cases added
      refine ⟨?_, [], .nil, by rw [List.append_nil]⟩
      intro cue member
      cases member
  | cons cue rest ih =>
      obtain ⟨⟨id, next⟩, here, later⟩ := bind_eq_ok_iff.1 added
      obtain ⟨plays, f, prompts, rfl⟩ := addCue_eq_ok indexed here
      rw [pushFlash_ofFlashes] at later
      obtain ⟨others, fs, flashes, rfl⟩ := ih later
      refine ⟨List.forall_mem_cons.2 ⟨plays, others⟩, f :: fs, .cons prompts flashes, ?_⟩
      rw [List.append_assoc, List.singleton_append]

/-- A list of cues is refused for the first of them that cannot be played. -/
theorem addCues_eq_error (indexed : s.Indexed) {cues : List Cue} {t : Timeline}
    {last : Option StepId} {e : Error} (refused : addCues s last t cues = .error e) :
    ∃ before cue rest, cues = before ++ cue :: rest ∧ (∀ c ∈ before, s.Plays c) ∧
      s.Rejects cue e := by
  induction cues generalizing t last with
  | nil => cases refused
  | cons cue rest ih =>
      rcases bind_eq_error_iff.1 refused with here | ⟨⟨id, next⟩, here, later⟩
      · refine ⟨[], cue, rest, rfl, ?_, (addCue_eq_error_iff indexed).1 here⟩
        intro c member
        cases member
      · obtain ⟨before, bad, after, rfl, good, rejects⟩ := ih later
        have plays := (addCue_eq_ok indexed here).1
        exact ⟨cue :: before, bad, after, rfl, List.forall_mem_cons.2 ⟨plays, good⟩, rejects⟩

end Timeline

/-! ### Whole scripts -/

/-- A timeline has the two steps of each cue of a script, in the order of the cues, and ends with the
last of them. -/
structure Scripted.Follows (scripted : Scripted) (s : Scene) (cues : List Cue) (highlight : Color)
    (ramps : Ramps) : Prop where
  size_eq : scripted.timeline.size = 2 * cues.length
  terminal_eq : scripted.terminal = ⟨2 * cues.length - 1⟩
  pair : ∀ (k : Nat) (cue : Cue), cues[k]? = some cue → ∃ f, s.Prompts cue f ∧
    scripted.timeline.get? ⟨2 * k⟩ = some (f.rampIn k highlight ramps) ∧
    scripted.timeline.get? ⟨2 * k + 1⟩ = some (f.rampOut k highlight ramps)

namespace Scene

/-- What a scene makes of a script. -/
structure Performs (s : Scene) (cues : List Cue) (highlight : Color) (ramps : Ramps) : Prop where
  exists_ok_iff : (∃ scripted, Timeline.ofScript s cues highlight ramps = .ok scripted) ↔
    cues ≠ [] ∧ ∀ cue ∈ cues, s.Plays cue
  follows : ∀ scripted, Timeline.ofScript s cues highlight ramps = .ok scripted →
    scripted.Follows s cues highlight ramps
  refused : ∀ e, Timeline.ofScript s cues highlight ramps = .error e →
    (cues = [] ∧ e = .emptyScript) ∨ ∃ before cue rest, cues = before ++ cue :: rest ∧
      (∀ c ∈ before, s.Plays c) ∧ s.Rejects cue e

variable {s : Scene} {cues : List Cue} {highlight : Color} {ramps : Ramps}

/-- The flashes behind the timeline of a script. -/
theorem Indexed.exists_flashes (indexed : s.Indexed) {scripted : Scripted}
    (done : Timeline.ofScript s cues highlight ramps = .ok scripted) :
    (∀ cue ∈ cues, s.Plays cue) ∧ ∃ fs, List.Forall₂ s.Prompts cues fs ∧
      scripted.timeline = Timeline.ofFlashes highlight ramps fs := by
  have added : Timeline.addCues s none (Timeline.ofFlashes highlight ramps []) cues =
      .ok (some scripted.terminal, scripted.timeline) := Timeline.ofScript_eq_ok_iff.1 done
  exact Timeline.addCues_eq_ok indexed added

theorem Indexed.follows (indexed : s.Indexed) {scripted : Scripted}
    (done : Timeline.ofScript s cues highlight ramps = .ok scripted) :
    scripted.Follows s cues highlight ramps := by
  obtain ⟨_, fs, flashes, timeline⟩ := indexed.exists_flashes done
  have size : scripted.timeline.size = 2 * cues.length := by
    rw [timeline, Timeline.size_ofFlashes, flashes.length_eq]
  refine ⟨size, ?_, ?_⟩
  · have added := Timeline.ofScript_eq_ok_iff.1 done
    have last := Timeline.addCues_last (fun _ impossible => by cases impossible) added _ rfl
    have index : scripted.terminal.index = 2 * cues.length - 1 := by omega
    rw [← index]
  · intro k cue place
    obtain ⟨f, found, prompts⟩ := exists_getElem?_of_forall₂ flashes place
    refine ⟨f, prompts, ?_, ?_⟩
    · rw [timeline, Timeline.get?_rampIn, found]
      rfl
    · rw [timeline, Timeline.get?_rampOut, found]
      rfl

theorem Indexed.exists_ofScript (indexed : s.Indexed) (some_cue : cues ≠ [])
    (plays : ∀ cue ∈ cues, s.Plays cue) :
    ∃ scripted, Timeline.ofScript s cues highlight ramps = .ok scripted := by
  have shown : ∀ cue ∈ cues, s.Shows cue.target :=
    fun cue member => exists_prompts_iff.1 (plays cue member).1
  have starts : ∀ cue ∈ cues, Design.isStartTime cue.start :=
    fun cue member => (plays cue member).isStartTime
  have run : ∃ reached after,
      Timeline.addCues s none (Timeline.empty highlight ramps) cues = .ok (reached, after) ∧
        s.Covers after :=
    Timeline.exists_addCues indexed (s.covers_empty highlight ramps) shown starts
  obtain ⟨reached, after, added, _⟩ := run
  cases reached with
  | none => exact absurd added (Timeline.addCues_ne_none (.inl some_cue))
  | some terminal => exact ⟨⟨after, terminal⟩, Timeline.ofScript_eq_ok_iff.2 added⟩

/-- A scene that was built by any calls makes of a script the flashes of its cues, or refuses it for
the first cue that cannot be played. -/
theorem run_performs (canvas : Canvas) (calls : List Call) (cues : List Cue) (highlight : Color)
    (ramps : Ramps) : ((empty canvas).run calls).Performs cues highlight ramps := by
  have indexed := (Indexed.empty canvas).run calls
  refine ⟨⟨?_, fun good => indexed.exists_ofScript good.1 good.2⟩, fun _ => indexed.follows, ?_⟩
  · intro made
    obtain ⟨scripted, done⟩ := made
    refine ⟨?_, (indexed.exists_flashes done).1⟩
    rintro rfl
    cases done
  · intro e refused
    rcases bind_eq_error_iff.1 refused with stopped | ⟨⟨reached, after⟩, added, ended⟩
    · exact .inr (Timeline.addCues_eq_error indexed stopped)
    · cases reached with
      | some terminal => cases ended
      | none =>
          cases ended
          left
          refine ⟨?_, rfl⟩
          by_contra some_cue
          exact Timeline.addCues_ne_none (.inl some_cue) added

end Scene

/-! ### The script of a design -/

namespace Artwork.Stages

variable {d : Design} {a : Artwork} {scripted : Scripted} {drawing : Svg.Element}

theorem indexed (stages : Stages d a scripted drawing) : a.scene.Indexed := by
  obtain ⟨s, built, indexed, _, _⟩ := Scene.exists_ofDesign stages.passed
  cases stages.scene.symm.trans built
  exact indexed

/-- The animations of a design are two for each cue. -/
theorem length_specs (stages : Stages d a scripted drawing) {specs : List AnimateSpec}
    (resolved : a.specs = .ok specs) : specs.length = 2 * d.script.length := by
  have size := (stages.indexed.follows stages.script).size_eq
  rw [← Loop.bound_size a.loop, ← stages.timeline] at size
  rw [← (mapM_eq_ok_iff.1 resolved).length_eq]
  exact size

end Artwork.Stages

end Emblem
